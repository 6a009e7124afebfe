/-
References — what imports by reference leave behind.

An import by reference is there for its mixins and variables, and adds no rule sets.  One
that declares nothing should not matter at all; yet it says for the block around it that
something is declared there, and so can give that block a rule set (`not_forall_without`).
Without the imports of a file that are by reference and declare nothing, the style sheet has
some of the rule sets that it has with them, and all of them exactly when no block declares
something through such imports alone (`evaluates_without`).

Evaluation does not read which file a node comes from.  So the file only says which imports
are meant, be it all of a file or a single one.
-/
import StyleTypings.Proofs.Evaluation.Numbering
import StyleTypings.Proofs.Evaluation.Omission
import StyleTypings.Proofs.Occurrences
import Mathlib.Data.Fintype.EquivFin

namespace StyleTypings.Less

variable {ι : Type} {f : Location}

/-! ## Numbering -/

mutual

theorem Node.Quiet.number : ∀ {n : Node ι}, n.Quiet f → ∀ next, (n.number next).1.Quiet f
  | .statement tag text, _, next => trivial
  | .block tag prelude body, h, next => by
    rw [Node.number, Node.Quiet]
    exact Quiet.number h (next + 1)
  | .imported file reference nodes, h, next => by
    rw [Node.Quiet] at h
    rw [Node.number, Node.Quiet]
    split at h
    · rw [if_pos ‹_›]
      have symbols := numberNodes_symbols nodes next
      rw [h.2, List.map_nil, List.map_eq_nil_iff] at symbols
      exact ⟨h.1, symbols⟩
    · rw [if_neg ‹_›]
      exact h.number next

/-- Numbering leaves quiet imports quiet. -/
theorem Quiet.number : ∀ {nodes : List (Node ι)}, Quiet f nodes →
    ∀ next, Quiet f (numberNodes next nodes).1
  | [], _, next => trivial
  | n :: rest, h, next => by
    rw [Quiet] at h
    rw [numberNodes, Quiet]
    exact ⟨h.1.number next, h.2.number _⟩

end

mutual

theorem Node.without_number {rest rest' : List (Node Nat)} (h : AlikeUpToTags rest rest') :
    ∀ (n : Node ι) (j k : Nat),
      AlikeUpToTags ((n.number j).1.without f ++ rest) ((numberNodes k (n.without f)).1 ++ rest')
  | .statement tag text, j, k => by
    rw [Node.number, Node.without, Node.without, numberNodes, Node.number]
    exact .statement j k text h
  | .block tag prelude body, j, k => by
    rw [Node.number, Node.without, Node.without, numberNodes, Node.number]
    exact .block prelude trivial (without_numberNodes body (j + 1) (k + 1)) h
  | .imported file reference nodes, j, k => by
    rw [Node.number, Node.without, Node.without]
    split
    · exact h
    · rw [numberNodes, Node.number]
      exact .imported file file reference (without_numberNodes nodes j k) h

/-- Nodes can be numbered before imports are left out or after that. -/
theorem without_numberNodes : ∀ (nodes : List (Node ι)) (j k : Nat),
    AlikeUpToTags (without f (numberNodes j nodes).1) (numberNodes k (without f nodes)).1
  | [], j, k => .nil
  | n :: rest, j, k => by
    rw [numberNodes, without, without, numberNodes_append]
    exact n.without_number (without_numberNodes rest _ _) j k

end

mutual

theorem Node.blockTags_without : ∀ n : Node ι, (blockTagsOf (n.without f)).Sublist n.blockTags
  | .statement tag text => .refl _
  | .block tag prelude body => by
    rw [Node.without, blockTagsOf_cons, Node.blockTags, Node.blockTags]
    simpa [blockTagsOf] using blockTagsOf_without body
  | .imported file reference nodes => by
    rw [Node.without, Node.blockTags]
    split
    · exact List.nil_sublist _
    · simpa [blockTagsOf, Node.blockTags] using blockTagsOf_without nodes

theorem blockTagsOf_without : ∀ nodes : List (Node ι),
    (blockTagsOf (without f nodes)).Sublist (blockTagsOf nodes)
  | [] => .refl _
  | n :: rest => by
    rw [without, blockTagsOf_append, blockTagsOf_cons]
    exact n.blockTags_without.append (blockTagsOf_without rest)

end

/-- A style sheet without imports has one result, numbered before or after. -/
theorem evaluates_without_numbered (sheet : List (Node ι)) (r : Except CompileError Stylesheet) :
    Evaluates (without f (numbered sheet)) r ↔ Evaluates (numbered (without f sheet)) r :=
  (without_numberNodes sheet 0 0).evaluates_iff
    (.sublist (blockTagsOf_without _) (numberNodes_nodup sheet 0))
    (numberNodes_nodup (without f sheet) 0) r

/-! ## Rule sets -/

/-- A style sheet has rule sets if the visit that it begins with comes to them. -/
theorem evaluates_ok_iff [DecidableEq ι] (sheet : List (Node ι)) (r : Stylesheet) :
    Evaluates sheet (.ok r) ↔
      ∃ depth declares, outcome ((Visit.start sheet).eval depth) [] = .ok (declares, r) := by
  rw [evaluates_iff]
  refine exists_congr fun depth => ?_
  show (outcome ((Visit.start sheet).eval depth) []).map _ = _ ↔ _
  rcases outcome ((Visit.start sheet).eval depth) [] with e | ⟨declares, r'⟩
  · simp [Except.map, Except.mapError]
  · simp [Except.map, Except.mapError]

theorem Visit.start_without {sheet : List (Node ι)} (quiet : Quiet f sheet) :
    (Visit.start sheet).without f = Visit.start (Less.without f sheet) := by
  rw [Visit.without, Visit.start, Visit.start, Scope.without_enter quiet]
  rfl

/-- A style sheet thins out as the visit does that it begins with. -/
theorem exists_thins {sheet : List (Node ι)} (quiet : Quiet f sheet) {r : Stylesheet}
    (h : Evaluates (numbered sheet) (.ok r)) :
    ∃ depth declares, Thins (declares, r)
      (outcome ((Visit.start (without f (numbered sheet))).eval depth) [])
      ((Visit.start (numbered sheet)).Keeps f) := by
  obtain ⟨depth, declares, ho⟩ := (evaluates_ok_iff _ _).mp h
  have hquiet : Quiet f (numbered sheet) := quiet.number 0
  have hscope : (Scope.enter [] (numbered sheet)).Quiet f := Scope.Quiet.enter .nil hquiet
  have thins := thinsWithin depth (Visit.start (numbered sheet)) hscope hquiet _ ho
  rw [Visit.start_without hquiet] at thins
  exact ⟨depth, declares, thins⟩

/-- Without imports that are by reference and declare nothing, a style sheet has no errors
and some of the rule sets that it has with them, in order.  It has all of them exactly when
every block with output and selectors that declares something declares something without
them, too. -/
theorem evaluates_without {sheet : List (Node ι)} (quiet : Quiet f sheet) {r : Stylesheet}
    (h : Evaluates (numbered sheet) (.ok r)) :
    ∃ left, Evaluates (numbered (without f sheet)) (.ok left) ∧ left.Sublist r ∧
      (left = r ↔ (Visit.start (numbered sheet)).Keeps f) := by
  obtain ⟨depth, _, others, left, hleft, _, hsub, hiff⟩ := exists_thins quiet h
  have hevaluates := (evaluates_ok_iff _ _).mpr ⟨depth, others, hleft⟩
  exact ⟨left, (evaluates_without_numbered sheet _).mp hevaluates, hsub, hiff⟩

/-! ## A block that is there for an import alone -/

/-- An import by reference of a file that has a declaration of a property only. -/
def declaringImport (file : Location) : Node Nat := .imported file true [.statement 1 "c: d"]

theorem quiet_declaringImport (file : Location) : (declaringImport file).Quiet file := by
  rw [declaringImport, Node.Quiet, if_pos rfl]
  exact ⟨rfl, rfl⟩

/-- A block that holds a declaration beside such an import. -/
def importBeside : List (Node Nat) :=
  [.block 0 ".a" [declaringImport ["x.less"], .statement 2 "e: f"]]

/-- Beside a declaration of the block's own the import does not matter. -/
theorem evaluates_without_importBeside :
    Quiet ["x.less"] importBeside ∧ Evaluates (numbered importBeside) (.ok [⟨[".a"]⟩]) ∧
      (Visit.start (numbered importBeside)).Keeps ["x.less"] := by
  have quiet : Quiet ["x.less"] importBeside :=
    ⟨⟨quiet_declaringImport _, trivial, trivial⟩, trivial⟩
  have h : Evaluates (numbered importBeside) (.ok [⟨[".a"]⟩]) := ⟨3, rfl⟩
  obtain ⟨left, hleft, _, hiff⟩ := evaluates_without quiet h
  have own : Evaluates (numbered (without ["x.less"] importBeside)) (.ok [⟨[".a"]⟩]) := ⟨3, rfl⟩
  exact ⟨quiet, h, hiff.mp (Except.ok.inj (hleft.unique own))⟩

/-- A block that holds nothing but such an import. -/
def importAlone : List (Node Nat) := [.block 0 ".a" [declaringImport ["x.less"]]]

/-- An import by reference that declares nothing can matter to the rule sets. -/
theorem not_forall_without :
    ¬ ∀ (f : Location) (sheet : List (Node Nat)) (r : Stylesheet), Quiet f sheet →
      Evaluates (numbered sheet) (.ok r) → Evaluates (numbered (without f sheet)) (.ok r) := by
  intro h
  have quiet : Quiet ["x.less"] importAlone := ⟨⟨quiet_declaringImport _, trivial⟩, trivial⟩
  have left := h ["x.less"] importAlone [⟨[".a"]⟩] quiet ⟨3, rfl⟩
  have nothing : Evaluates (numbered (without ["x.less"] importAlone)) (.ok []) := ⟨3, rfl⟩
  cases left.unique nothing

/-! ## One import -/

/-- An import by reference, of nodes that declare nothing, taken away at the head of a
list. -/
inductive Removed : List (Node ι) → List (Node ι) → Prop where
  | remove (file : Location) {nodes : List (Node ι)} (nothing : bindingsOf nodes = [])
      (rest : List (Node ι)) : Removed (.imported file true nodes :: rest) rest

/-- The import at the head of a list said to be of a given file. -/
inductive Relabelled (f : Location) : List (Node ι) → List (Node ι) → Prop where
  | relabel (file : Location) (reference : Bool) (nodes rest : List (Node ι)) :
    Relabelled f (.imported file reference nodes :: rest) (.imported f reference nodes :: rest)

theorem Relabelled.number {l l' : List (Node ι)} (h : Relabelled f l l') (j k : Nat) :
    AlikeUpToTags (numberNodes j l).1 (numberNodes k l').1 := by
  cases h with
  | relabel file reference nodes rest =>
    simp only [numberNodes, Node.number]
    exact .imported file f reference (numberNodes_alike nodes _ _) (numberNodes_alike rest _ _)

mutual

theorem Node.quiet_of_not_mem : ∀ n : Node ι, f ∉ n.importedFiles →
    n.Quiet f ∧ n.without f = [n]
  | .statement tag text, _ => ⟨trivial, rfl⟩
  | .block tag prelude body, h => by
    rw [Node.importedFiles] at h
    obtain ⟨quiet, same⟩ := quiet_of_not_mem body h
    exact ⟨quiet, by rw [Node.without, same]⟩
  | .imported file reference nodes, h => by
    rw [Node.importedFiles, List.mem_cons, not_or] at h
    obtain ⟨quiet, same⟩ := quiet_of_not_mem nodes h.2
    rw [Node.Quiet, Node.without, if_neg (Ne.symm h.1), if_neg (Ne.symm h.1), same]
    exact ⟨quiet, rfl⟩

/-- A file that is not imported can be left out. -/
theorem quiet_of_not_mem : ∀ nodes : List (Node ι), f ∉ importedFiles nodes →
    Quiet f nodes ∧ without f nodes = nodes
  | [], _ => ⟨trivial, rfl⟩
  | n :: rest, h => by
    rw [importedFiles_cons, List.mem_append, not_or] at h
    obtain ⟨quiet, same⟩ := n.quiet_of_not_mem h.1
    obtain ⟨quiet', same'⟩ := quiet_of_not_mem rest h.2
    rw [Quiet, without, same, same']
    exact ⟨⟨quiet, quiet'⟩, rfl⟩

end

/-- To take one import away is to leave out a file that only it is said to be of. -/
theorem exists_relabelled {before after : List (Node ι)} (h : Within Removed before after)
    (fresh : f ∉ importedFiles before) :
    ∃ marked, Within (Relabelled f) before marked ∧ Quiet f marked ∧ without f marked = after := by
  induction h with
  | @here _ rest h =>
    cases h with
    | remove file nothing =>
      rw [importedFiles_cons, List.mem_append, not_or] at fresh
      obtain ⟨quiet, same⟩ := quiet_of_not_mem rest fresh.2
      refine ⟨_, .here (.relabel file true _ rest), ⟨?_, quiet⟩, ?_⟩
      · rw [Node.Quiet, if_pos rfl]
        exact ⟨rfl, nothing⟩
      · rw [without, Node.without, if_pos rfl, same, List.nil_append]
  | block tag prelude rest _ ih =>
    rw [importedFiles_cons, Node.importedFiles, List.mem_append, not_or] at fresh
    obtain ⟨body, relabelled, quiet, hbody⟩ := ih fresh.1
    obtain ⟨quiet', same⟩ := quiet_of_not_mem rest fresh.2
    refine ⟨_, .block tag prelude rest relabelled, ⟨quiet, quiet'⟩, ?_⟩
    rw [without, Node.without, hbody, same, List.singleton_append]
  | imported file reference rest _ ih =>
    rw [importedFiles_cons, Node.importedFiles, List.mem_append, List.mem_cons, not_or,
      not_or] at fresh
    obtain ⟨nodes, relabelled, quiet, hnodes⟩ := ih fresh.1.2
    obtain ⟨quiet', same⟩ := quiet_of_not_mem rest fresh.2
    have other : ¬ file = f := Ne.symm fresh.1.1
    refine ⟨_, .imported file reference rest relabelled, ⟨?_, quiet'⟩, ?_⟩
    · rw [Node.Quiet, if_neg other]
      exact quiet
    · rw [without, Node.without, if_neg other, hnodes, same, List.singleton_append]
  | later n _ ih =>
    rw [importedFiles_cons, List.mem_append, not_or] at fresh
    obtain ⟨rest, relabelled, quiet, hrest⟩ := ih fresh.2
    obtain ⟨quiet', same⟩ := n.quiet_of_not_mem fresh.1
    refine ⟨_, .later n relabelled, ⟨quiet', quiet⟩, ?_⟩
    rw [without, same, hrest, List.singleton_append]

/-- Without one import that is by reference and declares nothing, a style sheet has no errors
and some of the rule sets that it has with it. -/
theorem evaluates_of_removed {before after : List (Node ι)} (h : Within Removed before after)
    {r : Stylesheet} (hr : Evaluates (numbered before) (.ok r)) :
    ∃ left, Evaluates (numbered after) (.ok left) ∧ left.Sublist r := by
  obtain ⟨f, fresh⟩ := Infinite.exists_notMem_finset (importedFiles before).toFinset
  rw [List.mem_toFinset] at fresh
  obtain ⟨marked, relabelled, quiet, rfl⟩ := exists_relabelled h fresh
  have hmarked := (relabelled.evaluates_iff_of_alike Relabelled.number _).mp hr
  obtain ⟨depth, _, others, left, hleft, _, hsub, _⟩ := exists_thins quiet hmarked
  have hevaluates := (evaluates_ok_iff _ _).mpr ⟨depth, others, hleft⟩
  exact ⟨left, (evaluates_without_numbered marked _).mp hevaluates, hsub⟩

end StyleTypings.Less
