/-
Imports — which files can be loaded with all they import.

A load that does not end goes down from file to file for ever.  A file that has not
been loaded before can be loaded only as often as there are files on the disk, so
what is left are directives with `(multiple)` that load again what has been loaded:
a load ends unless such directives lead on for ever (`load_ends_iff`), and a file
that imports itself in this way does so (`selfImport_endless`).
-/
import StyleTypings.Less.Import
import StyleTypings.Proofs.Descent
import StyleTypings.Proofs.Files
import StyleTypings.Proofs.Halting
import Mathlib.Data.Finset.Card

namespace StyleTypings.Less

variable {disk : Disk}

/-! ## Single steps -/

/-- What a directive asks for is a file, and one that has been loaded only if it says so. -/
theorem Directive.wanted_eq_some {path : Path} {loaded : List Location} {d : Directive}
    {resolved : Path} {file : Location}
    (h : d.wanted disk path loaded = .ok (some (resolved, file))) :
    disk.isFile resolved = true ∧ disk.locate resolved = .ok file ∧
      (file ∈ loaded → d.has "multiple" = true) := by
  unfold Directive.wanted at h
  split at h
  · cases h
  simp only at h
  split at h
  · rename_i there located
    split at h
    · cases h
    · rename_i fresh
      cases h
      refine ⟨there, located, fun old => ?_⟩
      simpa [old] using fresh
  · split at h <;> cases h

namespace Loader

variable {α : Type}

@[simp] theorem result_throw (h : Halt) (loaded : List Location) :
    result (throw h : Loader α) loaded = .error h := rfl

@[simp] theorem result_get (loaded : List Location) :
    result (get : Loader (List Location)) loaded = .ok (loaded, loaded) := rfl

@[simp] theorem result_modify (f : List Location → List Location) (loaded : List Location) :
    result (modify f : Loader PUnit) loaded = .ok (⟨⟩, f loaded) := rfl

end Loader

open Loader

section Steps

variable (load : Path → Loader (List (Node Nat))) {path : Path} {line : Nat} {text : Text}
  {d : Directive} {loaded : List Location}

/-- A directive that asks for a file has it loaded. -/
theorem importsOfNode_of_wanted {resolved : Path} {file : Location}
    (directive : Directive.ofStatement? path line text = .ok (some d))
    (wanted : d.wanted disk path loaded = .ok (some (resolved, file))) :
    result (importsOfNode disk load path (.statement line text)) loaded =
      result (do let nodes ← load resolved; return [.imported file (d.has "reference") nodes])
        loaded := by
  rw [importsOfNode, directive]
  show result (importNodes disk load path d) loaded = _
  rw [importNodes, result_bind_ok (result_get loaded), wanted]

/-- A statement that does not ask for a file halts or goes on without loading. -/
theorem importsOfNode_finishes
    (h : ∀ d r, Directive.ofStatement? path line text = .ok (some d) →
      d.wanted disk path loaded ≠ .ok (some r)) :
    Finishes (importsOfNode disk load path (.statement line text)) loaded := by
  rw [importsOfNode]
  cases hd : Directive.ofStatement? path line text with
  | error e => simp [Finishes]
  | ok o =>
    cases o with
    | none => exact .pure _ _
    | some d =>
      show Finishes (importNodes disk load path d) loaded
      rw [Finishes, importNodes, result_bind_ok (result_get loaded)]
      cases hw : d.wanted disk path loaded with
      | error e => simp
      | ok o =>
        cases o with
        | none => exact Finishes.pure _ _
        | some r => exact absurd hw (h d r hd)

theorem load_of_read {depth : Nat} {t : Text} {nodes : List (Node Nat)}
    (read : disk.read path = .ok t) (parsed : parse t = .ok nodes) :
    result (Less.load disk (depth + 1) path) loaded =
      result (importsOfNodes disk (Less.load disk depth) path nodes)
        (recordPath disk path loaded) := by
  rw [Less.load, read]
  show result (loadText disk (Less.load disk depth) t path) loaded = _
  rw [loadText, result_bind_ok (result_modify _ loaded), parsed]

end Steps

/-! ## The same imports -/

section Same

variable {disk' : Disk} {load load' : Path → Loader (List (Node Nat))} {path : Path}

mutual

/-- What a node imports is known from what directives import. -/
theorem importsOfNode_congr
    (same : ∀ d, importNodes disk' load' path d = importNodes disk load path d) :
    ∀ n : Node Nat, importsOfNode disk' load' path n = importsOfNode disk load path n
  | .statement line text => by
    rw [importsOfNode, importsOfNode]
    split
    · rfl
    · rfl
    · exact same _
  | .block line prelude body => by
    rw [importsOfNode, importsOfNode, importsOfNodes_congr same body]
  | .imported file reference nodes => by
    rw [importsOfNode, importsOfNode]

theorem importsOfNodes_congr
    (same : ∀ d, importNodes disk' load' path d = importNodes disk load path d) :
    ∀ nodes : List (Node Nat),
    importsOfNodes disk' load' path nodes = importsOfNodes disk load path nodes
  | [] => by rw [importsOfNodes, importsOfNodes]
  | n :: rest => by
    rw [importsOfNodes, importsOfNodes, importsOfNode_congr same n, importsOfNodes_congr same rest]

end

end Same

/-! ## Agreement at greater depths -/

section Agrees

variable {load load' : Path → Loader (List (Node Nat))}

theorem importNodes_agrees (agrees : ∀ path, Agrees (load path) (load' path)) (path : Path)
    (d : Directive) :
    Agrees (importNodes disk load path d) (importNodes disk load' path d) := by
  refine .bind (.refl _) fun loaded => ?_
  split
  · exact .refl _
  · exact .refl _
  · exact .bind (agrees _) fun nodes => .refl _

mutual

theorem importsOfNode_agrees (agrees : ∀ path, Agrees (load path) (load' path)) (path : Path) :
    ∀ n : Node Nat,
    Agrees (importsOfNode disk load path n) (importsOfNode disk load' path n)
  | .statement line text => by
    rw [importsOfNode, importsOfNode]
    split
    · exact .refl _
    · exact .refl _
    · exact importNodes_agrees agrees path _
  | .block line prelude body => by
    rw [importsOfNode, importsOfNode]
    exact .bind (importsOfNodes_agrees agrees path body) fun body => .refl _
  | .imported file reference nodes => by
    rw [importsOfNode, importsOfNode]
    exact .refl _

theorem importsOfNodes_agrees (agrees : ∀ path, Agrees (load path) (load' path)) (path : Path) :
    ∀ nodes : List (Node Nat),
    Agrees (importsOfNodes disk load path nodes) (importsOfNodes disk load' path nodes)
  | [] => by
    rw [importsOfNodes, importsOfNodes]
    exact .refl _
  | n :: rest => by
    rw [importsOfNodes, importsOfNodes]
    exact .bind (importsOfNode_agrees agrees path n) fun here =>
      .bind (importsOfNodes_agrees agrees path rest) fun others => .refl _

end

end Agrees

/-- A load that finishes at some depth finishes in the same way at any greater one. -/
theorem load_deepening (path : Path) : Deepening fun depth => load disk depth path := by
  intro d d' hd
  induction d generalizing d' path with
  | zero => exact fun loaded hfin => absurd rfl hfin
  | succ d ih =>
    obtain ⟨d', rfl⟩ := Nat.exists_eq_add_of_le' (Nat.le_trans (Nat.le_add_left 1 d) hd)
    simp only [load]
    split
    · exact .refl _
    · refine .bind (.refl _) fun _ => ?_
      split
      · exact .refl _
      · exact importsOfNodes_agrees (fun path => ih path d' (Nat.le_of_succ_le_succ hd)) _ _

theorem importsOfNode_deepening (path : Path) (n : Node Nat) :
    Deepening fun depth => importsOfNode disk (load disk depth) path n :=
  fun d d' hd => importsOfNode_agrees (fun path => load_deepening path d d' hd) path n

theorem importsOfNodes_deepening (path : Path) (nodes : List (Node Nat)) :
    Deepening fun depth => importsOfNodes disk (load disk depth) path nodes :=
  fun d d' hd => importsOfNodes_agrees (fun path => load_deepening path d d' hd) path nodes

/-! ## Files that load files -/

/-- Whether a file is loaded for the first time or again. -/
inductive Load.Kind where
  | first
  | again
deriving DecidableEq, Repr

/-- A file about to be loaded, and what has been loaded before. -/
structure Load where
  path : Path
  loaded : List Location

/-- The files that the nodes of a file load, from what has been loaded on.  Without
`(multiple)` nothing is loaded again. -/
inductive NodesLoad (disk : Disk) (path : Path) :
    List (Node Nat) → List Location → Load.Kind → Load → Prop where
  | first {line : Nat} {text : Text} {rest : List (Node Nat)} {loaded : List Location}
      {d : Directive} {resolved : Path} {file : Location}
      (directive : Directive.ofStatement? path line text = .ok (some d))
      (wanted : d.wanted disk path loaded = .ok (some (resolved, file))) (new : file ∉ loaded) :
    NodesLoad disk path (.statement line text :: rest) loaded .first ⟨resolved, loaded⟩
  | again {line : Nat} {text : Text} {rest : List (Node Nat)} {loaded : List Location}
      {d : Directive} {resolved : Path} {file : Location}
      (directive : Directive.ofStatement? path line text = .ok (some d))
      (wanted : d.wanted disk path loaded = .ok (some (resolved, file))) (old : file ∈ loaded)
      (multiple : d.has "multiple" = true) :
    NodesLoad disk path (.statement line text :: rest) loaded .again ⟨resolved, loaded⟩
  | inside {line : Nat} {prelude : Text} {body rest : List (Node Nat)} {loaded : List Location}
      {k : Load.Kind} {v : Load} (loads : NodesLoad disk path body loaded k v) :
    NodesLoad disk path (.block line prelude body :: rest) loaded k v
  /-- By a node after one that is done. -/
  | later {n : Node Nat} {here rest : List (Node Nat)} {loaded after : List Location}
      {k : Load.Kind} {v : Load}
      (done : ComesTo (fun depth => importsOfNode disk (load disk depth) path n) loaded here after)
      (loads : NodesLoad disk path rest after k v) :
    NodesLoad disk path (n :: rest) loaded k v

namespace Load

/-- Whether the depth is enough for the load. -/
def EndsWithin (disk : Disk) (depth : Nat) (v : Load) : Prop :=
  Finishes (load disk depth v.path) v.loaded

/-- What has been loaded once the file itself is. -/
def recorded (disk : Disk) (v : Load) : List Location := recordPath disk v.path v.loaded

/-- One file loads another. -/
def Enters (disk : Disk) (k : Load.Kind) (v w : Load) : Prop :=
  ∃ t nodes, disk.read v.path = .ok t ∧ parse t = .ok nodes ∧
    NodesLoad disk v.path nodes (v.recorded disk) k w

end Load

theorem NodesLoad.endsWithin {path : Path} {nodes : List (Node Nat)} {loaded : List Location}
    {k : Load.Kind} {v : Load} (h : NodesLoad disk path nodes loaded k v) {d : Nat}
    (hfin : Finishes (importsOfNodes disk (load disk d) path nodes) loaded) :
    v.EndsWithin disk d := by
  induction h with
  | @first line text rest loaded d' resolved file directive wanted new =>
    rw [importsOfNodes] at hfin
    have hfirst := hfin.of_bind
    rw [Finishes, importsOfNode_of_wanted _ directive wanted] at hfirst
    exact Finishes.of_bind hfirst
  | @again line text rest loaded d' resolved file directive wanted old =>
    rw [importsOfNodes] at hfin
    have hfirst := hfin.of_bind
    rw [Finishes, importsOfNode_of_wanted _ directive wanted] at hfirst
    exact Finishes.of_bind hfirst
  | inside loads ih =>
    rw [importsOfNodes, importsOfNode] at hfin
    exact ih hfin.of_bind.of_bind
  | @later n here rest loaded after k v done loads ih =>
    rw [importsOfNodes] at hfin
    exact ih (Finishes.of_both (y := fun d => importsOfNodes disk (load disk d) path rest)
      (importsOfNode_deepening path n) done hfin)

theorem exists_load_of_statement {path : Path} {line : Nat} {text : Text} {rest : List (Node Nat)}
    {loaded : List Location}
    (h : Endless (fun depth => importsOfNode disk (load disk depth) path (.statement line text))
      loaded) :
    ∃ k v, NodesLoad disk path (.statement line text :: rest) loaded k v ∧
      ∀ depth, ¬ v.EndsWithin disk depth := by
  by_cases hload : ∃ d r, Directive.ofStatement? path line text = .ok (some d) ∧
      d.wanted disk path loaded = .ok (some r)
  · obtain ⟨d, ⟨resolved, file⟩, directive, wanted⟩ := hload
    have hend : ∀ depth, ¬ Finishes (load disk depth resolved) loaded := by
      intro depth hfin
      refine h depth ?_
      rw [Finishes, importsOfNode_of_wanted _ directive wanted]
      exact hfin.bind fun nodes _ => .pure _ _
    by_cases hold : file ∈ loaded
    · exact ⟨_, _, .again directive wanted hold ((d.wanted_eq_some wanted).2.2 hold), hend⟩
    · exact ⟨_, _, .first directive wanted hold, hend⟩
  · push Not at hload
    exact absurd (importsOfNode_finishes _ hload) (h 0)

theorem exists_load_of_nodes {path : Path} : ∀ {nodes : List (Node Nat)} {loaded : List Location},
    Endless (fun depth => importsOfNodes disk (load disk depth) path nodes) loaded →
    ∃ k v, NodesLoad disk path nodes loaded k v ∧ ∀ depth, ¬ v.EndsWithin disk depth
  | [], loaded, h => by
    simp only [importsOfNodes] at h
    exact absurd (.pure _ _) (h 0)
  | n :: rest, loaded, h => by
    simp only [importsOfNodes] at h
    rcases endless_both (importsOfNode_deepening path n) (importsOfNodes_deepening path rest) h
      with hhere | ⟨here, after, hdone, hrest⟩
    · cases n with
      | statement line text => exact exists_load_of_statement hhere
      | block line prelude body =>
        have hbody : Endless (fun depth => importsOfNodes disk (load disk depth) path body)
            loaded := by
          intro depth hfin
          refine hhere depth ?_
          simp only [importsOfNode]
          exact hfin.bind fun nodes _ => .pure _ _
        obtain ⟨k, v, hload, hend⟩ := exists_load_of_nodes hbody
        exact ⟨k, v, .inside hload, hend⟩
      | imported file reference nodes =>
        simp only [importsOfNode] at hhere
        exact absurd (.pure _ _) (hhere 0)
    · obtain ⟨k, v, hload, hend⟩ := exists_load_of_nodes hrest
      exact ⟨k, v, .later hdone hload, hend⟩

/-- Loading as a descent from file to file. -/
def loading (disk : Disk) : Descent Load.Kind Load where
  Enters := Load.Enters disk
  EndsWithin := Load.EndsWithin disk
  not_endsWithin_zero _ h := h rfl
  endsWithin_of_enters := by
    rintro depth k v w ⟨t, nodes, read, parsed, loads⟩ hend
    refine loads.endsWithin ?_
    rwa [Load.EndsWithin, Finishes, load_of_read read parsed] at hend
  exists_enters := by
    intro v hend
    cases read : disk.read v.path with
    | error e =>
      refine absurd ?_ (hend 1)
      simp [Load.EndsWithin, Finishes, load, read]
    | ok t =>
      cases parsed : parse t with
      | error flaw =>
        refine absurd ?_ (hend 1)
        rw [Load.EndsWithin, Finishes, load, read]
        show result (loadText disk _ t v.path) v.loaded ≠ _
        rw [loadText, result_bind_ok (result_modify _ _), parsed]
        simp
      | ok nodes =>
        have hnodes : Endless (fun depth => importsOfNodes disk (load disk depth) v.path nodes)
            (v.recorded disk) := by
          intro depth hfin
          refine hend (depth + 1) ?_
          rwa [Load.EndsWithin, Finishes, load_of_read read parsed]
        obtain ⟨k, w, loads, hw⟩ := exists_load_of_nodes hnodes
        exact ⟨k, w, ⟨t, nodes, read, parsed, loads⟩, hw⟩

/-! ## What has been loaded -/

/-- Loading forgets nothing that has been loaded. -/
def Grows {α : Type} (x : Loader α) : Prop :=
  Leads (fun loaded after : List Location => loaded ⊆ after) x

namespace Grows

variable {α β : Type}

theorem pure (a : α) : Grows (Pure.pure a : Loader α) := Leads.pure List.Subset.refl a

theorem throw (h : Halt) : Grows (MonadExcept.throw h : Loader α) := by
  rintro loaded a after ⟨⟩

theorem get : Grows (get : Loader (List Location)) := by
  rintro loaded a after ⟨⟩
  exact List.Subset.refl _

theorem bind {x : Loader α} {f : α → Loader β} (hx : Grows x) (hf : ∀ a, Grows (f a)) :
    Grows (x >>= f) := by
  refine Leads.bind ?_ hx hf
  intro loaded between after
  exact List.Subset.trans

theorem record (disk : Disk) (path : Path) : Grows (modify (recordPath disk path)) := by
  rintro loaded a after ⟨⟩
  unfold recordPath
  split
  · exact List.subset_cons_self _ _
  · exact List.Subset.refl _

end Grows

section Grows

variable {load : Path → Loader (List (Node Nat))}

theorem importNodes_grows (grows : ∀ path, Grows (load path)) (path : Path) (d : Directive) :
    Grows (importNodes disk load path d) := by
  refine .bind .get fun loaded => ?_
  split
  · exact .throw _
  · exact .pure _
  · exact .bind (grows _) fun nodes => .pure _

mutual

theorem importsOfNode_grows (grows : ∀ path, Grows (load path)) (path : Path) :
    ∀ n : Node Nat, Grows (importsOfNode disk load path n)
  | .statement line text => by
    rw [importsOfNode]
    split
    · exact .throw _
    · exact .pure _
    · exact importNodes_grows grows path _
  | .block line prelude body => by
    rw [importsOfNode]
    exact .bind (importsOfNodes_grows grows path body) fun body => .pure _
  | .imported file reference nodes => by
    rw [importsOfNode]
    exact .pure _

theorem importsOfNodes_grows (grows : ∀ path, Grows (load path)) (path : Path) :
    ∀ nodes : List (Node Nat), Grows (importsOfNodes disk load path nodes)
  | [] => by
    rw [importsOfNodes]
    exact .pure _
  | n :: rest => by
    rw [importsOfNodes]
    exact .bind (importsOfNode_grows grows path n) fun here =>
      .bind (importsOfNodes_grows grows path rest) fun others => .pure _

end

end Grows

theorem load_grows (depth : Nat) : ∀ path, Grows (load disk depth path) := by
  induction depth with
  | zero => exact fun path => .throw _
  | succ depth ih =>
    intro path
    rw [load]
    split
    · exact .throw _
    · refine .bind (.record disk path) fun _ => ?_
      split
      · exact .throw _
      · exact importsOfNodes_grows ih path _

theorem NodesLoad.loaded_subset {path : Path} {nodes : List (Node Nat)} {loaded : List Location}
    {k : Load.Kind} {v : Load} (h : NodesLoad disk path nodes loaded k v) :
    loaded ⊆ v.loaded := by
  induction h with
  | first => exact List.Subset.refl _
  | again => exact List.Subset.refl _
  | inside _ ih => exact ih
  | @later n _ _ _ _ _ _ done _ ih =>
    have grown := done.leads fun depth => importsOfNode_grows (load_grows depth) path n
    exact List.Subset.trans grown ih

/-! ## How often files are loaded for the first time -/

/-- Whatever is loaded is a file, and a new one if it is loaded for the first time. -/
theorem NodesLoad.target {path : Path} {nodes : List (Node Nat)} {loaded : List Location}
    {k : Load.Kind} {v : Load} (h : NodesLoad disk path nodes loaded k v) :
    ∃ file, disk.isFile v.path = true ∧ disk.locate v.path = .ok file ∧
      (k = .first → file ∉ v.loaded) := by
  induction h with
  | first directive wanted new =>
    obtain ⟨there, located, _⟩ := Directive.wanted_eq_some wanted
    exact ⟨_, there, located, fun _ => new⟩
  | again directive wanted =>
    obtain ⟨there, located, _⟩ := Directive.wanted_eq_some wanted
    exact ⟨_, there, located, nofun⟩
  | inside _ ih => exact ih
  | later _ _ ih => exact ih

namespace Load

/-- How many files of the disk have been loaded once the file itself is. -/
def count (disk : Disk) (v : Load) : Nat :=
  (disk.root.files.toFinset ∩ (v.recorded disk).toFinset).card

theorem count_le (v : Load) : v.count disk ≤ disk.root.files.toFinset.card :=
  Finset.card_le_card Finset.inter_subset_left

theorem Enters.recorded_subset {k : Load.Kind} {v w : Load} (h : Enters disk k v w) :
    v.recorded disk ⊆ w.recorded disk := by
  obtain ⟨t, nodes, _, _, loads⟩ := h
  obtain ⟨file, _, located, _⟩ := loads.target
  intro f hf
  rw [recorded, recordPath, located]
  exact List.mem_cons_of_mem file (loads.loaded_subset hf)

theorem Enters.count_le {k : Load.Kind} {v w : Load} (h : Enters disk k v w) :
    v.count disk ≤ w.count disk := by
  refine Finset.card_le_card (Finset.inter_subset_inter_left ?_)
  intro f hf
  exact List.mem_toFinset.mpr (h.recorded_subset (List.mem_toFinset.mp hf))

/-- A file loaded for the first time is one more. -/
theorem Enters.count_lt {v w : Load} (h : Enters disk .first v w) :
    v.count disk < w.count disk := by
  have hsub := h.recorded_subset
  obtain ⟨t, nodes, _, _, loads⟩ := h
  obtain ⟨file, there, located, new⟩ := loads.target
  have hfile : file ∈ disk.root.files := Disk.mem_files there located
  refine Finset.card_lt_card (Finset.ssubset_iff_of_subset ?_ |>.mpr ⟨file, ?_, ?_⟩)
  · refine Finset.inter_subset_inter_left fun f hf => ?_
    exact List.mem_toFinset.mpr (hsub (List.mem_toFinset.mp hf))
  · simp [recorded, recordPath, located, hfile]
  · simp only [Finset.mem_inter, List.mem_toFinset, not_and]
    exact fun _ old => new rfl (loads.loaded_subset old)

end Load

/-! ## Loads that end -/

/-- At some depth the load of a file comes to its nodes or to an error. -/
def Loads (disk : Disk) (path : Path) : Prop :=
  ∃ depth, (∃ nodes loaded, (load disk depth path).run [] = .ok (nodes, loaded)) ∨
    ∃ e, (load disk depth path).run [] = .error (.error e)

theorem loads_iff_endsWithin (path : Path) :
    Loads disk path ↔ ∃ depth, Load.EndsWithin disk depth ⟨path, []⟩ := by
  refine exists_congr fun depth => ?_
  show _ ↔ (load disk depth path).run [] ≠ .error .unfinished
  rcases (load disk depth path).run [] with (_ | e) | ⟨nodes, loaded⟩ <;> simp

/-- From some point on, the load of a file does nothing but to load again, for
directives with `(multiple)`, files that have been loaded. -/
def ImportsForEver (disk : Disk) (path : Path) : Prop :=
  ∃ run : (loading disk).Run ⟨path, []⟩, ∃ m, ∀ n, m ≤ n → run.kind n = .again

/-- A load that never ends leads on for ever. -/
theorem importsForEver_of_endless {path : Path}
    (hendless : ∀ depth, ¬ Load.EndsWithin disk depth ⟨path, []⟩) : ImportsForEver disk path := by
  obtain ⟨run⟩ := (loading disk).endless_iff.mp hendless
  -- Each first load is one more of the files on the disk.
  obtain ⟨m, hm⟩ := run.eventually_not (S := (· = .first)) (Load.count disk)
    disk.root.files.toFinset.card (fun n => Load.count_le _) (fun n => (run.enters n).count_le)
    fun n hn => Load.Enters.count_lt (hn ▸ run.enters n)
  refine ⟨run, m, fun n hn => ?_⟩
  cases hk : run.kind n with
  | first => exact absurd hk (hm n hn)
  | again => rfl

/-- The load of a file comes to its nodes or to an error exactly when no directives
with `(multiple)` lead on for ever. -/
theorem load_ends_iff (disk : Disk) (path : Path) : Loads disk path ↔ ¬ ImportsForEver disk path := by
  rw [loads_iff_endsWithin]
  constructor
  · rintro ⟨depth, hend⟩ ⟨run, _⟩
    exact (loading disk).endless_iff.mpr ⟨run⟩ depth hend
  · intro himports
    by_contra hendless
    push Not at hendless
    exact himports (importsForEver_of_endless hendless)

/-! ## One that does not -/

/-- A file `a.less` that imports itself again. -/
def selfImport : Disk :=
  ⟨.directory [("a.less", .file (.text "@import (multiple) 'a';"))], []⟩

/-- Whatever has been loaded before, no depth is enough for the file. -/
theorem selfImport_endless (depth : Nat) (loaded : List Location) :
    ¬ Load.EndsWithin selfImport depth ⟨"a.less", loaded⟩ := by
  induction depth generalizing loaded with
  | zero => exact (loading selfImport).not_endsWithin_zero _
  | succ depth ih =>
    intro hend
    have read : selfImport.read "a.less" = .ok "@import (multiple) 'a';" := rfl
    have parsed : parse "@import (multiple) 'a';" =
        .ok [.statement 1 "@import (multiple) 'a'"] := rfl
    have directive : Directive.ofStatement? "a.less" 1 "@import (multiple) 'a'" =
        .ok (some ⟨["multiple"], ['a']⟩) := rfl
    have wanted : Directive.wanted selfImport "a.less" (["a.less"] :: loaded)
        ⟨["multiple"], ['a']⟩ = .ok (some ("a.less", ["a.less"])) := rfl
    have enters : Load.Enters selfImport .again ⟨"a.less", loaded⟩
        ⟨"a.less", ["a.less"] :: loaded⟩ :=
      ⟨_, _, read, parsed, .again directive wanted List.mem_cons_self rfl⟩
    exact ih _ ((loading selfImport).endsWithin_of_enters enters hend)

/-- Not every file can be loaded. -/
theorem not_forall_loads : ¬ ∀ (disk : Disk) (path : Path), Loads disk path := by
  intro h
  obtain ⟨depth, hend⟩ := (loads_iff_endsWithin "a.less").mp (h selfImport "a.less")
  exact selfImport_endless depth [] hend

end StyleTypings.Less
