/-
Imported once — without `(multiple)` every file comes in once.

Where no directive carries `(multiple)`, a file is loaded only if it has not been loaded
before, by whatever path.  So a file is loaded for the first time, or its load is not asked
for, and loading ends (`NoneMultiple.loads`).

What has been loaded grows by the files that the nodes come from, last first, and as each
was new when it was loaded, it stays without doubles (`Records`).  This holds of a directive
and is put together over nodes, blocks and files in the way in which they are loaded
(`load_records`).  Of a whole load it says that the tree holds each file once at most, and
the first file not at all (`imported_once`).
-/
import StyleTypings.Proofs.Imports
import StyleTypings.Proofs.Occurrences

namespace StyleTypings.Less

open Loader

variable {disk : Disk}

/-! ## Directives -/

/-- A directive that is a statement of a file, at whatever depth. -/
inductive Directive.StandsIn (disk : Disk) (path : Path) (line : Nat) (text : Text)
    (d : Directive) : Prop where
  | intro {t : Text} {nodes : List (Node Nat)} (read : disk.read path = .ok t)
      (parsed : parse t = .ok nodes) (occurs : Occurs (.statement line text) nodes)
      (directive : Directive.ofStatement? path line text = .ok (some d))

/-- No directive of any file carries `(multiple)`. -/
def NoneMultiple (disk : Disk) : Prop :=
  ∀ path line text (d : Directive), d.StandsIn disk path line text → d.has "multiple" = false

/-- No directive among nodes of a file carries `(multiple)`. -/
def NoneMultipleIn (path : Path) (nodes : List (Node Nat)) : Prop :=
  ∀ line text d, Occurs (.statement line text) nodes →
    Directive.ofStatement? path line text = .ok (some d) → d.has "multiple" = false

theorem NoneMultiple.nodes (once : NoneMultiple disk) {path : Path} {t : Text}
    {nodes : List (Node Nat)} (read : disk.read path = .ok t) (parsed : parse t = .ok nodes) :
    NoneMultipleIn path nodes := fun line text d occurs directive =>
  once path line text d ⟨read, parsed, occurs, directive⟩

/-! ## Ending -/

/-- Only a directive with `(multiple)` loads again. -/
theorem NodesLoad.not_again {path : Path} {nodes : List (Node Nat)} {loaded : List Location}
    {k : Load.Kind} {v : Load} (h : NodesLoad disk path nodes loaded k v)
    (once : NoneMultipleIn path nodes) : k ≠ .again := by
  induction h with
  | first => nofun
  | again directive _ _ multiple =>
    rw [once _ _ _ (.here _) directive] at multiple
    cases multiple
  | inside _ ih => exact ih fun line text d occurs => once line text d (.block _ _ _ occurs)
  | later _ _ ih => exact ih fun line text d occurs => once line text d (.later _ occurs)

theorem NoneMultiple.loads (once : NoneMultiple disk) (path : Path) : Loads disk path := by
  rw [loads_iff_endsWithin]
  by_contra hendless
  push Not at hendless
  obtain ⟨run, m, again⟩ := importsForEver_of_endless hendless
  obtain ⟨t, nodes, read, parsed, loads⟩ := run.enters m
  exact loads.not_again (once.nodes read parsed) (again m le_rfl)

/-! ## What is recorded -/

/-- Loading nodes adds the files that they import to those loaded before, and none twice. -/
structure Records (loaded : List Location) (nodes : List (Node Nat)) (after : List Location) :
    Prop where
  after_eq : after = (importedFiles nodes).reverse ++ loaded
  nodup : loaded.Nodup → after.Nodup

namespace Records

variable {loaded between after : List Location} {nodes rest : List (Node Nat)}

theorem of_importedFiles_eq_nil (h : importedFiles nodes = []) : Records loaded nodes loaded :=
  ⟨by rw [h]; rfl, id⟩

theorem append (h : Records loaded nodes between) (h' : Records between rest after) :
    Records loaded (nodes ++ rest) after where
  after_eq := by
    rw [h'.after_eq, h.after_eq, importedFiles_append, List.reverse_append, List.append_assoc]
  nodup := h'.nodup ∘ h.nodup

theorem block (h : Records loaded nodes after) (line : Nat) (prelude : Text) :
    Records loaded [.block line prelude nodes] after where
  after_eq := by
    rw [importedFiles_cons, Node.importedFiles, importedFiles_nil, List.append_nil, h.after_eq]
  nodup := h.nodup

/-- A file that has not been loaded comes in with its nodes. -/
theorem imported {file : Location} (new : file ∉ loaded) (h : Records (file :: loaded) nodes after)
    (reference : Bool) : Records loaded [.imported file reference nodes] after where
  after_eq := by
    rw [importedFiles_cons, Node.importedFiles, importedFiles_nil, List.append_nil,
      List.reverse_cons, List.append_assoc, h.after_eq]
    rfl
  nodup hloaded := h.nodup (List.nodup_cons.mpr ⟨new, hloaded⟩)

end Records

/-- Wherever loading a file comes to nodes, it records itself and all they import. -/
def LoadRecords (disk : Disk) (load : Path → Loader (List (Node Nat))) : Prop :=
  ∀ path loaded nodes after, result (load path) loaded = .ok (nodes, after) →
    ∃ file, disk.locate path = .ok file ∧ Records (file :: loaded) nodes after

section Nodes

variable {load : Path → Loader (List (Node Nat))} {path : Path}

theorem importNodes_records (records : LoadRecords disk load) {d : Directive} (once : d.has "multiple" = false)
    {loaded after : List Location} {nodes : List (Node Nat)}
    (h : result (importNodes disk load path d) loaded = .ok (nodes, after)) :
    Records loaded nodes after := by
  rw [importNodes, result_bind_ok (result_get loaded)] at h
  cases wanted : d.wanted disk path loaded with
  | error e =>
    rw [wanted] at h
    cases h
  | ok o =>
    rw [wanted] at h
    cases o with
    | none =>
      cases h
      exact .of_importedFiles_eq_nil rfl
    | some r =>
      obtain ⟨resolved, file⟩ := r
      obtain ⟨_, located, again⟩ := Directive.wanted_eq_some wanted
      have new : file ∉ loaded := fun old => by simp [again old] at once
      obtain ⟨inside, _, hload, hpure⟩ := of_result_bind h
      cases hpure
      obtain ⟨_, same, hinside⟩ := records _ _ _ _ hload
      cases located.symm.trans same
      exact hinside.imported new _

mutual

theorem importsOfNode_records (records : LoadRecords disk load) : ∀ (n : Node Nat)
    {loaded after : List Location} {nodes : List (Node Nat)}, NoneMultipleIn path [n] → n.importedFiles = [] →
      result (importsOfNode disk load path n) loaded = .ok (nodes, after) →
        Records loaded nodes after
  | .statement line text, loaded, after, nodes, once, _, h => by
    rw [importsOfNode] at h
    cases directive : Directive.ofStatement? path line text with
    | error e =>
      rw [directive] at h
      cases h
    | ok o =>
      rw [directive] at h
      cases o with
      | none =>
        cases h
        exact .of_importedFiles_eq_nil rfl
      | some d => exact importNodes_records records (once line text d (.here _) directive) h
  | .block line prelude body, loaded, after, nodes, once, unread, h => by
    rw [importsOfNode] at h
    obtain ⟨inside, _, hbody, hpure⟩ := of_result_bind h
    cases hpure
    have inner : NoneMultipleIn path body := fun line text d occurs =>
      once line text d (.block _ _ _ occurs)
    exact (importsOfNodes_records records body inner unread hbody).block line prelude
  | .imported file reference nodes, _, _, _, _, unread, _ => by
    cases unread

/-- Nodes that have been read record all that they import. -/
theorem importsOfNodes_records (records : LoadRecords disk load) : ∀ (nodes : List (Node Nat))
    {loaded after : List Location} {result' : List (Node Nat)}, NoneMultipleIn path nodes → importedFiles nodes = [] →
      result (importsOfNodes disk load path nodes) loaded = .ok (result', after) →
        Records loaded result' after
  | [], loaded, after, result', _, _, h => by
    rw [importsOfNodes] at h
    cases h
    exact .of_importedFiles_eq_nil rfl
  | n :: rest, loaded, after, result', once, unread, h => by
    rw [importsOfNodes] at h
    obtain ⟨here, between, hhere, h⟩ := of_result_bind h
    obtain ⟨others, _, hrest, hpure⟩ := of_result_bind h
    cases hpure
    rw [importedFiles_cons, List.append_eq_nil_iff] at unread
    have first : NoneMultipleIn path [n] := fun line text d occurs =>
      once line text d (occurs.of_singleton rest)
    have later : NoneMultipleIn path rest := fun line text d occurs =>
      once line text d (.later n occurs)
    exact (importsOfNode_records records n first unread.1 hhere).append
      (importsOfNodes_records records rest later unread.2 hrest)

end

end Nodes

theorem load_records (once : NoneMultiple disk) (depth : Nat) :
    LoadRecords disk (load disk depth) := by
  induction depth with
  | zero =>
    rintro path loaded nodes after ⟨⟩
  | succ depth ih =>
    intro path loaded nodes after h
    cases read : disk.read path with
    | error e =>
      rw [load, read] at h
      cases h
    | ok t =>
      obtain ⟨file, located, _⟩ := Disk.locate_of_read read
      cases parsed : parse t with
      | error flaw =>
        rw [load, read] at h
        change result (loadText disk _ t path) loaded = _ at h
        rw [loadText, result_bind_ok (result_modify _ _), parsed] at h
        cases h
      | ok parsedNodes =>
        rw [load_of_read read parsed, recordPath, located] at h
        exact ⟨file, located, importsOfNodes_records ih parsedNodes (once.nodes read parsed)
          (importedFiles_parse parsed) h⟩

/-! ## Whole loads -/

/-- A directive that leads to a file that has been loaded gives no nodes. -/
theorem importsOfNode_of_loaded {load : Path → Loader (List (Node Nat))} {path : Path} {line : Nat}
    {text : Text} {d : Directive} {file : Location} {loaded : List Location}
    (once : d.has "multiple" = false)
    (directive : Directive.ofStatement? path line text = .ok (some d))
    (there : disk.isFile (Directive.resolve path d.specifier) = true)
    (located : disk.locate (Directive.resolve path d.specifier) = .ok file)
    (old : file ∈ loaded) :
    result (importsOfNode disk load path (.statement line text)) loaded = .ok ([], loaded) := by
  have wanted : d.wanted disk path loaded = .ok none := by
    simp [Directive.wanted, there, located, old, once]
  rw [importsOfNode, directive]
  show result (importNodes disk load path d) loaded = _
  rw [importNodes, result_bind_ok (result_get loaded), wanted]
  rfl

/-- Where no directive carries `(multiple)`, the load of a file ends.  What has been loaded
then is, in order, the file and what the tree imports, and no file is there twice; and a
directive that leads to a file loaded before gives no nodes. -/
theorem imported_once (once : NoneMultiple disk) (path : Path) :
    Loads disk path ∧
      (∀ depth nodes loaded, (load disk depth path).run [] = .ok (nodes, loaded) →
        ∃ file, disk.locate path = .ok file ∧ loaded.reverse = file :: importedFiles nodes ∧
          (file :: importedFiles nodes).Nodup) ∧
      ∀ importer line text (d : Directive), d.StandsIn disk importer line text →
        ∀ file, disk.isFile (Directive.resolve importer d.specifier) = true →
          disk.locate (Directive.resolve importer d.specifier) = .ok file →
            ∀ depth loaded, file ∈ loaded →
              (importsOfNode disk (load disk depth) importer (.statement line text)).run loaded =
                .ok ([], loaded) := by
  refine ⟨once.loads path, ?_, ?_⟩
  · intro depth nodes loaded h
    obtain ⟨file, located, records⟩ := load_records once depth path [] nodes loaded h
    have order : loaded.reverse = file :: importedFiles nodes := by
      rw [records.after_eq, List.reverse_append, List.reverse_reverse]
      rfl
    refine ⟨file, located, order, order ▸ List.nodup_reverse.mpr (records.nodup ?_)⟩
    exact List.nodup_singleton file
  · intro importer line text d stands file there located depth loaded old
    have single := once importer line text d stands
    obtain ⟨_, _, _, directive⟩ := stands
    exact importsOfNode_of_loaded single directive there located old

/-! ## Files that import each other -/

/-- A file that imports another under two spellings, and is imported by it. -/
def crossImports : Disk :=
  ⟨.directory
    [("d", .directory []), ("m.less", .file (.text "@import 'x'; @import './d/../x.less';")),
      ("x.less", .file (.text ".b \x7b @import url(m.less); \x7d"))], []⟩

theorem noneMultiple_crossImports : NoneMultiple crossImports := by
  intro path line text d stands
  obtain ⟨read, parsed, occurs, directive⟩ := stands
  obtain ⟨here, _, there⟩ := Disk.locate_of_read read
  have files : crossImports.root.files = ([["m.less"], ["x.less"]] : List Location) := rfl
  have hhere := files ▸ Entry.mem_files there
  simp only [List.mem_cons, List.not_mem_nil, or_false] at hhere
  obtain rfl | rfl := hhere
  · cases there
    have nodes : parse "@import 'x'; @import './d/../x.less';" =
        .ok [.statement 1 "@import 'x'", .statement 1 "@import './d/../x.less'"] := rfl
    cases nodes.symm.trans parsed
    cases occurs with
    | here =>
      cases directive
      rfl
    | later _ occurs =>
      cases occurs with
      | here =>
        cases directive
        rfl
      | later _ occurs => cases occurs
  · cases there
    have nodes : parse ".b \x7b @import url(m.less); \x7d" =
        .ok [.block 1 ".b" [.statement 1 "@import url(m.less)"]] := rfl
    cases nodes.symm.trans parsed
    cases occurs with
    | block _ _ _ occurs =>
      cases occurs with
      | here =>
        cases directive
        rfl
      | later _ occurs => cases occurs
    | later _ occurs => cases occurs

/-- Both files are loaded, and the tree holds each file once but the first. -/
theorem imported_once_crossImports :
    NoneMultiple crossImports ∧ Loads crossImports "m.less" ∧
      ∃ nodes loaded, (load crossImports 3 "m.less").run [] = .ok (nodes, loaded) ∧
        loaded.reverse = (["m.less"] : Location) :: importedFiles nodes := by
  obtain ⟨loads, tree, _⟩ := imported_once noneMultiple_crossImports "m.less"
  refine ⟨noneMultiple_crossImports, loads, ?_⟩
  have done : ((load crossImports 3 "m.less").run []).toOption.isSome := by decide +kernel
  cases h : (load crossImports 3 "m.less").run [] with
  | error e =>
    rw [h] at done
    cases done
  | ok r =>
    obtain ⟨file, located, order, _⟩ := tree 3 r.1 r.2 h
    cases located
    exact ⟨r.1, r.2, rfl, order⟩

end StyleTypings.Less
