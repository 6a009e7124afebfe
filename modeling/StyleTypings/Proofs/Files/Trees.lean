/-
Trees — disks as functions from locations to what stands there.

The entries of a directory are kept in the strict order of their names, so a tree is
determined by what stands at its locations (`Entry.Proper.ext`), and a file that is stored
changes what stands at its own location and nothing else (`Disk.kind?_store`).  Both
together give the effect of many writes without following them one by one: after files
have been stored, the last text stored at a location stands there, and where none was
stored, what stood there before (`Disk.kind?_storeAll`).  The order matters only where two
texts are stored at one location (`Disk.storeAll_perm`).
-/
import StyleTypings.Proofs.Files.Kinds
import Mathlib.Data.Char
import Mathlib.Data.List.Lex
import Mathlib.Data.List.Sort

namespace StyleTypings

/-! ## The order of names -/

/-- Texts are in the lexical order of their characters. -/
theorem Path.textLe_iff {s t : Text} : Path.textLe s t = true ↔ s ≤ t := by
  rw [← not_lt]
  induction s generalizing t with
  | nil => simp [textLe]
  | cons c s ih =>
    cases t with
    | nil => simp [textLe]
    | cons d t =>
      rw [textLe, List.cons_lt_cons_iff]
      split
      · rename_i h
        subst h
        simp [ih]
      · rename_i h
        have order : c.toNat < d.toNat ↔ ¬ d < c := by
          rw [not_lt, le_iff_lt_or_eq, or_iff_left h]
          exact (UInt32.lt_iff_toNat_lt).symm
        simp [Ne.symm h, order]

namespace Entry

section Put

variable {name : Text} {e : Entry} {entries : List (Text × Entry)}

theorem lookup_put (m : Text) :
    (put name e entries).lookup m = if m = name then some e else entries.lookup m := by
  induction entries with
  | nil => by_cases hm : m = name <;> simp [put, hm]
  | cons entry rest ih =>
    obtain ⟨n, old⟩ := entry
    rw [put]
    split
    · rename_i h
      subst h
      by_cases hm : m = n <;> simp [List.lookup_cons, hm, beq_false_of_ne]
    · split
      · by_cases hm : m = name <;> simp [List.lookup_cons, hm, beq_false_of_ne]
      · rename_i hn _
        by_cases hm : m = n
        · subst hm
          simp [hn]
        · simp [List.lookup_cons, hm, ih, beq_false_of_ne]

theorem mem_put {x : Text × Entry} (h : x ∈ put name e entries) : x = (name, e) ∨ x ∈ entries := by
  induction entries with
  | nil => exact .inl (List.mem_singleton.mp h)
  | cons entry rest ih =>
    obtain ⟨n, old⟩ := entry
    rw [put] at h
    split at h
    · rcases List.mem_cons.mp h with rfl | h
      · exact .inl rfl
      · exact .inr (.tail _ h)
    · split at h
      · exact List.mem_cons.mp h
      · rcases List.mem_cons.mp h with rfl | h
        · exact .inr List.mem_cons_self
        · exact (ih h).imp id (.tail _)

/-- Putting in an entry keeps the names in order. -/
theorem pairwise_put (h : entries.Pairwise (·.1 < ·.1)) :
    (put name e entries).Pairwise (·.1 < ·.1) := by
  induction entries with
  | nil => exact List.pairwise_singleton ..
  | cons entry rest ih =>
    obtain ⟨n, old⟩ := entry
    obtain ⟨first, ordered⟩ := List.pairwise_cons.mp h
    rw [put]
    split
    · rename_i hn
      subst hn
      exact List.pairwise_cons.mpr ⟨first, ordered⟩
    · rename_i hn
      split
      · rename_i le
        have before : name < n := lt_of_le_of_ne (Path.textLe_iff.mp le) (Ne.symm hn)
        refine List.pairwise_cons.mpr ⟨fun x hx => ?_, h⟩
        rcases List.mem_cons.mp hx with rfl | hx
        · exact before
        · exact before.trans (first x hx)
      · rename_i le
        refine List.pairwise_cons.mpr ⟨fun x hx => ?_, ih ordered⟩
        rcases mem_put hx with rfl | hx
        · exact not_le.mp fun h => le (Path.textLe_iff.mpr h)
        · exact first x hx

end Put

/-! ## Proper trees -/

/-- A tree in which every directory has its entries in order, each under a name of its own
that can be looked up. -/
inductive Proper : Entry → Prop where
  | file (content : Content) : Proper (.file content)
  | directory {entries : List (Text × Entry)} (ordered : entries.Pairwise (·.1 < ·.1))
      (names : ∀ x ∈ entries, Disk.IsName x.1) (below : ∀ x ∈ entries, Proper x.2) :
      Proper (.directory entries)

/-- Where no key has two values, a value is found under its key. -/
theorem lookup_eq_some_iff_mem {α β : Type} [BEq α] [LawfulBEq α] {l : List (α × β)}
    (single : ∀ x ∈ l, ∀ y ∈ l, x.1 = y.1 → x = y) {k : α} {v : β} :
    l.lookup k = some v ↔ (k, v) ∈ l := by
  have mem {w : β} (h : l.lookup k = some w) : (k, w) ∈ l := by
    obtain ⟨before, after, rfl, _⟩ := List.lookup_eq_some_iff.mp h
    simp
  refine ⟨mem, fun h => ?_⟩
  cases found : l.lookup k with
  | none => simpa using List.lookup_eq_none_iff.mp found (k, v) h
  | some w =>
    cases single _ (mem found) _ h rfl
    rfl

/-- Where no name is given twice, an entry is looked up under the name that it is listed with. -/
theorem lookup_of_distinct {entries : List (Text × Entry)} (distinct : (entries.map (·.1)).Nodup)
    {name : Text} {e : Entry} : entries.lookup name = some e ↔ (name, e) ∈ entries :=
  lookup_eq_some_iff_mem fun _ hx _ hy => List.inj_on_of_nodup_map distinct hx hy

theorem distinct_of_ordered {entries : List (Text × Entry)}
    (ordered : entries.Pairwise (·.1 < ·.1)) : (entries.map (·.1)).Nodup :=
  List.pairwise_map.mpr (ordered.imp ne_of_lt)

theorem lookup_of_ordered {entries : List (Text × Entry)} (ordered : entries.Pairwise (·.1 < ·.1))
    {name : Text} {e : Entry} : entries.lookup name = some e ↔ (name, e) ∈ entries :=
  lookup_of_distinct (distinct_of_ordered ordered)

namespace Proper

theorem of_lookup {entries : List (Text × Entry)} (h : Proper (.directory entries)) {name : Text}
    {e : Entry} (found : entries.lookup name = some e) : Disk.IsName name ∧ e.Proper := by
  obtain ⟨before, after, rfl, _⟩ := List.lookup_eq_some_iff.mp found
  cases h with
  | directory ordered names below =>
    exact ⟨names (name, e) (by simp), below (name, e) (by simp)⟩

theorem put {entries : List (Text × Entry)} (h : Proper (.directory entries)) {name : Text}
    {e : Entry} (hname : Disk.IsName name) (he : e.Proper) :
    Proper (.directory (put name e entries)) := by
  cases h with
  | directory ordered names below =>
    refine .directory (pairwise_put ordered) (fun x hx => ?_) (fun x hx => ?_)
    · rcases mem_put hx with rfl | hx
      · exact hname
      · exact names x hx
    · rcases mem_put hx with rfl | hx
      · exact he
      · exact below x hx

/-- What stands in a proper tree is proper, and so are the names that lead there. -/
theorem at? {e e' : Entry} {here : Location} (h : e.Proper) (there : e.at? here = some e') :
    (∀ n ∈ here, Disk.IsName n) ∧ e'.Proper := by
  induction here generalizing e with
  | nil =>
    cases there
    exact ⟨nofun, h⟩
  | cons name names ih =>
    obtain ⟨child, found, below⟩ := Option.bind_eq_some_iff.mp there
    cases e with
    | file content => cases found
    | directory entries =>
      obtain ⟨hname, hchild⟩ := h.of_lookup found
      obtain ⟨hnames, proper⟩ := ih hchild below
      exact ⟨List.forall_mem_cons.mpr ⟨hname, hnames⟩, proper⟩

/-- Proper trees with the same at every location are the same. -/
theorem ext {e e' : Entry} (h : e.Proper) (h' : e'.Proper)
    (same : ∀ here, e.kind? here = e'.kind? here) : e = e' := by
  induction h generalizing e' with
  | file content =>
    cases e' with
    | file content' =>
      cases same []
      rfl
    | directory entries' => cases same []
  | @directory entries ordered names below ih =>
    cases e' with
    | file content => cases same []
    | directory entries' =>
      cases h' with
      | directory ordered' names' below' =>
        have lookups (name : Text) : entries.lookup name = entries'.lookup name := by
          have kinds (here : Location) : (entries.lookup name).bind (·.kind? here) =
              (entries'.lookup name).bind (·.kind? here) := by
            simpa only [kind?_directory_cons] using same (name :: here)
          cases found : entries.lookup name with
          | none =>
            cases found' : entries'.lookup name with
            | none => rfl
            | some x' =>
              have := kinds []
              simp [found, found'] at this
          | some x =>
            cases found' : entries'.lookup name with
            | none =>
              have := kinds []
              simp [found, found'] at this
            | some x' =>
              have hx := (lookup_of_ordered ordered).mp found
              have hx' := (lookup_of_ordered ordered').mp found'
              exact congrArg some (ih (name, x) hx (below' (name, x') hx') fun here => by
                simpa [found, found'] using kinds here)
        have : Std.Antisymm fun x y : Text × Entry => x.1 < y.1 :=
          ⟨fun x y hxy hyx => absurd (hxy.trans hyx) (lt_irrefl _)⟩
        have : Std.Irrefl fun x y : Text × Entry => x.1 < y.1 := ⟨fun x => lt_irrefl x.1⟩
        refine congrArg Entry.directory (ordered.eq_of_mem_iff ordered' fun x => ?_)
        rw [← lookup_of_ordered ordered, lookups, lookup_of_ordered ordered']

end Proper

/-! ## Storing files -/

/-- A file set in a directory changes what stands at its own location only. -/
theorem set_file {e : Entry} {directory : Location} {name : Text} (content : Content)
    (parent : e.kind? directory = some .directory)
    (free : e.kind? (directory ++ [name]) ≠ some .directory) :
    ∃ e', set (.file content) (directory ++ [name]) e = some e' ∧
      (∀ here, e'.kind? here =
        if here = directory ++ [name] then some (.file content) else e.kind? here) ∧
      (Disk.IsName name → e.Proper → e'.Proper) := by
  induction directory generalizing e with
  | nil =>
    cases e with
    | file _ => cases parent
    | directory entries =>
      refine ⟨_, rfl, fun here => ?_, fun hname h => h.put hname (.file content)⟩
      cases here with
      | nil => rfl
      | cons m names =>
        simp only [List.nil_append, kind?_directory_cons, lookup_put] at free ⊢
        by_cases hm : m = name
        · subst hm
          cases names with
          | nil => simp [kind]
          | cons _ _ =>
            -- Nothing stands below a file, nor does anything where there was no directory.
            cases found : entries.lookup m with
            | none => simp
            | some old => cases old <;> simp_all [kind]
        · simp [hm]
  | cons m directory ih =>
    cases e with
    | file _ => cases parent
    | directory entries =>
      simp only [kind?_directory_cons] at parent
      obtain ⟨child, found, parent⟩ := Option.bind_eq_some_iff.mp parent
      simp only [List.cons_append, kind?_directory_cons, found, Option.bind_some] at free
      obtain ⟨child', hset, kinds, proper⟩ := ih parent free
      refine ⟨.directory (Entry.put m child' entries), ?_, fun here => ?_, fun hname h => ?_⟩
      · rw [List.cons_append, set, found, Option.getD_some, hset]
        rfl
      · cases here with
        | nil => rfl
        | cons m' names =>
          simp only [kind?_directory_cons, lookup_put]
          by_cases hm : m' = m
          · subst hm
            simp [found, kinds]
          · simp [hm]
      · obtain ⟨hm, hchild⟩ := h.of_lookup found
        exact h.put hm (proper hname hchild)

end Entry

namespace Disk

/-- A disk with a proper tree, whose working directory is there. -/
structure Proper (d : Disk) : Prop where
  tree : d.root.Proper
  working : d.kind? d.working = some .directory

/-- The disk with a text stored in the file at a location. -/
def store (d : Disk) (here : Location) (t : Text) : Disk := d.put here (.text t)

section Put

variable {d : Disk} {here : Location} (c : Content)

theorem working_put : (d.put here c).working = d.working := by
  rw [put]
  split <;> rfl

theorem kind?_put (h : d.CanHold here) (there : Location) :
    (d.put here c).kind? there = if there = here then some (.file c) else d.kind? there := by
  obtain ⟨directory, name, rfl, _, parent⟩ := h.parent
  obtain ⟨root, hset, kinds, _⟩ := Entry.set_file c parent h.free
  rw [put, hset]
  exact kinds there

theorem differsAt_put (h : d.CanHold here) : DiffersAt (· = here) d (d.put here c) where
  working := working_put c
  directories there := by
    rw [kind?_put c h]
    split
    · rename_i same
      subst same
      exact iff_of_false nofun h.free
    · rfl
  elsewhere there out := by rw [kind?_put c h, if_neg out]

theorem Proper.put (hd : d.Proper) (h : d.CanHold here) : (d.put here c).Proper := by
  have same := differsAt_put c h
  refine ⟨?_, by rw [same.working, same.directories, hd.working]⟩
  obtain ⟨directory, name, rfl, hname, parent⟩ := h.parent
  obtain ⟨root, hset, _, proper⟩ := Entry.set_file c parent h.free
  rw [Disk.put, hset]
  exact proper hname hd.tree

end Put

section Store

variable {d : Disk} {here : Location} (t : Text)

theorem kind?_store (h : d.CanHold here) (there : Location) :
    (d.store here t).kind? there =
      if there = here then some (.file (.text t)) else d.kind? there :=
  kind?_put (.text t) h there

theorem differsAt_store (h : d.CanHold here) : DiffersAt (· = here) d (d.store here t) :=
  differsAt_put (.text t) h

/-- Writing stores a text where a path would create a file. -/
theorem write_eq (p : Path) : d.write p t =
    match d.target p with
    | .error e => (.error e, d)
    | .ok here => (.ok (), d.store here t) := rfl

end Store

theorem CanHold.of_differsAt {d d' : Disk} {W : Location → Prop} {here : Location}
    (h : d.CanHold here) (same : DiffersAt W d d') : d'.CanHold here := by
  obtain ⟨directory, name, rfl, hname, parent⟩ := h.parent
  exact ⟨⟨directory, name, rfl, hname, (same.directories directory).mpr parent⟩,
    fun free => h.free ((same.directories _).mp free)⟩

/-- The disk with files of given texts, all in one directory. -/
def ofFiles (files : List (Text × Text)) : Disk where
  root := .directory (files.map fun f => (f.1, .file (.text f.2)))
  working := []

theorem proper_ofFiles {files : List (Text × Text)} (ordered : files.Pairwise (·.1 < ·.1))
    (names : ∀ f ∈ files, IsName f.1) : (ofFiles files).Proper where
  tree := by
    refine .directory (List.pairwise_map.mpr ordered) ?_ ?_ <;>
      simp only [List.forall_mem_map]
    · exact names
    · exact fun f _ => .file (.text f.2)
  working := rfl

/-! ## Storing many files -/

/-- The disk with texts stored one after the other, each in the file at a location. -/
def storeAll (d : Disk) (files : List (Location × Text)) : Disk :=
  files.foldl (fun d f => d.store f.1 f.2) d

section StoreAll

variable {d : Disk} {files : List (Location × Text)}

theorem storeAll_cons (f : Location × Text) :
    d.storeAll (f :: files) = (d.store f.1 f.2).storeAll files := rfl

theorem differsAt_storeAll (h : ∀ f ∈ files, d.CanHold f.1) :
    DiffersAt (fun here => ∃ t, (here, t) ∈ files) d (d.storeAll files) := by
  induction files generalizing d with
  | nil => exact .refl _ _
  | cons f files ih =>
    have first := differsAt_store f.2 (h f List.mem_cons_self)
    have rest := ih fun g hg => (h g (.tail _ hg)).of_differsAt first
    refine (first.mono fun here same => ⟨f.2, ?_⟩).trans (rest.mono fun here ⟨t, ht⟩ => ⟨t, .tail _ ht⟩)
    rw [same]
    exact List.mem_cons_self

theorem Proper.storeAll (hd : d.Proper) (h : ∀ f ∈ files, d.CanHold f.1) :
    (d.storeAll files).Proper := by
  induction files generalizing d with
  | nil => exact hd
  | cons f files ih =>
    have first := h f List.mem_cons_self
    exact ih (hd.put (.text f.2) first) fun g hg =>
      (h g (.tail _ hg)).of_differsAt (differsAt_store f.2 first)

/-- The text stored last at a location stands there. -/
theorem kind?_storeAll (h : ∀ f ∈ files, d.CanHold f.1) (here : Location) :
    (d.storeAll files).kind? here =
      ((files.reverse.lookup here).map fun t => .file (.text t)).or (d.kind? here) := by
  induction files generalizing d with
  | nil => rfl
  | cons f files ih =>
    have first := h f List.mem_cons_self
    rw [storeAll_cons, ih fun g hg => (h g (.tail _ hg)).of_differsAt (differsAt_store f.2 first),
      kind?_store f.2 first, List.reverse_cons, List.lookup_append]
    obtain ⟨place, t⟩ := f
    cases files.reverse.lookup here with
    | some t' => rfl
    | none =>
      by_cases same : here = place
      · subst same
        simp
      · simp [same, List.lookup_cons, beq_false_of_ne]

/-- Where a text is stored, one of those that are stored there stands in the end. -/
theorem exists_kind?_storeAll (h : ∀ f ∈ files, d.CanHold f.1) {here : Location} {t : Text}
    (hf : (here, t) ∈ files) :
    ∃ t', (here, t') ∈ files ∧ (d.storeAll files).kind? here = some (.file (.text t')) := by
  rw [kind?_storeAll h]
  cases found : files.reverse.lookup here with
  | none => simpa using List.lookup_eq_none_iff.mp found (here, t) (List.mem_reverse.mpr hf)
  | some t' =>
    obtain ⟨before, after, split, _⟩ := List.lookup_eq_some_iff.mp found
    have member : (here, t') ∈ files.reverse := by simp [split]
    exact ⟨t', List.mem_reverse.mp member, rfl⟩

/-- Nothing is lost. -/
theorem isSome_kind?_storeAll (h : ∀ f ∈ files, d.CanHold f.1) {here : Location}
    (there : (d.kind? here).isSome) : ((d.storeAll files).kind? here).isSome := by
  rw [kind?_storeAll h, Option.isSome_or, there, Bool.or_true]

/-- If no location gets two texts, the order of storing does not matter. -/
theorem storeAll_perm {files' : List (Location × Text)} (hd : d.Proper)
    (h : ∀ f ∈ files, d.CanHold f.1)
    (single : ∀ f ∈ files, ∀ f' ∈ files, f.1 = f'.1 → f = f') (perm : files.Perm files') :
    d.storeAll files = d.storeAll files' := by
  have h' : ∀ f ∈ files', d.CanHold f.1 := fun f hf => h f (perm.mem_iff.mpr hf)
  have lookups (here : Location) : files.reverse.lookup here = files'.reverse.lookup here := by
    ext t
    rw [Entry.lookup_eq_some_iff_mem, Entry.lookup_eq_some_iff_mem, List.mem_reverse,
      List.mem_reverse, perm.mem_iff]
    · simpa only [List.mem_reverse, perm.mem_iff] using single
    · simpa only [List.mem_reverse] using single
  have roots : (d.storeAll files).root = (d.storeAll files').root := by
    refine (hd.storeAll h).tree.ext (hd.storeAll h').tree fun here => ?_
    show (d.storeAll files).kind? here = (d.storeAll files').kind? here
    rw [kind?_storeAll h, kind?_storeAll h', lookups]
  exact congrArg₂ Disk.mk roots
    ((differsAt_storeAll h).working.trans (differsAt_storeAll h').working.symm)

end StoreAll

end Disk

end StyleTypings
