/-
Matching — which texts a glob pattern stands for.

`Matches` says it token by token, without saying how a match is found.  A try that comes to
a match is right about it (`matches_of_attempt`), and one that does not is right as well
(`not_matches_of_attempt`), although it gives up as soon as the text is used up before the
pattern: what a star before would leave is an end of the text, and no end is longer.

A token for any number of directories looks at fewer ends, those after a slash, so a star
right before it could leave one that it has not looked at.  But such a token stands at the
beginning, after a slash or after its like (`Placed`), and there the ends are the same.
-/
import StyleTypings.Globs.Pattern
import Mathlib.Data.List.Basic

namespace StyleTypings

namespace Glob

/-- Whether a text is one of those that tokens stand for. -/
inductive Matches : List Token → Text → Prop where
  | done : Matches [] []
  | char {token : Token} {c : Char} {ts : List Token} {rest : Text}
      (admitted : token.admits c = true) (h : Matches ts rest) : Matches (token :: ts) (c :: rest)
  | sequence {ts : List Token} (taken : Text) {rest : Text} (h : Matches ts rest) :
      Matches (.anySequence :: ts) (taken ++ rest)
  | stay {ts : List Token} {t : Text} (h : Matches ts t) : Matches (.anyDirectories :: ts) t
  | descend {ts : List Token} (above : Text) {rest : Text} (h : Matches ts rest) :
      Matches (.anyDirectories :: ts) (above ++ '/' :: rest)
  | all {ts : List Token} (t : Text) (h : Matches ts []) : Matches (.anyDirectories :: ts) t

variable {ts : List Token} {t rest : Text} {c : Char}

theorem matches_sequence_nil : Matches (.anySequence :: ts) [] ↔ Matches ts [] := by
  constructor
  · intro h
    generalize ht : ([] : Text) = t at h
    cases h with
    | char => cases ht
    | sequence taken h =>
      obtain ⟨rfl, rfl⟩ := List.append_eq_nil_iff.mp ht.symm
      exact h
  · exact .sequence []

theorem matches_sequence_cons : Matches (.anySequence :: ts) (c :: rest) ↔
    Matches ts (c :: rest) ∨ Matches (.anySequence :: ts) rest := by
  constructor
  · intro h
    generalize ht : c :: rest = t at h
    cases h with
    | char admitted => cases admitted
    | sequence taken h =>
      rcases List.cons_eq_append_iff.mp ht with ⟨rfl, rfl⟩ | ⟨taken', rfl, rfl⟩
      · exact .inl h
      · exact .inr (.sequence taken' h)
  · rintro (h | h)
    · exact .sequence [] h
    · generalize hts : Token.anySequence :: ts = all at h
      cases h with
      | sequence taken h =>
        cases hts
        exact .sequence (c :: taken) h
      | char admitted =>
        cases hts
        cases admitted
      | _ => cases hts

/-- A token for one character stands for the first one. -/
theorem matches_char {token : Token} (sequence : token ≠ .anySequence)
    (directories : token ≠ .anyDirectories) : Matches (token :: ts) t ↔
      ∃ c rest, t = c :: rest ∧ token.admits c = true ∧ Matches ts rest := by
  constructor
  · intro h
    cases h with
    | char admitted h => exact ⟨_, _, rfl, admitted, h⟩
    | sequence => exact absurd rfl sequence
    | _ => exact absurd rfl directories
  · rintro ⟨c, rest, rfl, admitted, h⟩
    exact .char admitted h

/-- Tokens that match nothing, or what stands after some slash of a text. -/
def MatchesAfter (ts : List Token) (t : Text) : Prop :=
  Matches ts [] ∨ ∃ above rest, t = above ++ '/' :: rest ∧ Matches ts rest

theorem matchesAfter_cons : MatchesAfter ts (c :: rest) ↔
    c = '/' ∧ Matches ts rest ∨ MatchesAfter ts rest := by
  constructor
  · rintro (h | ⟨above, rest', ht, h⟩)
    · exact .inr (.inl h)
    · cases above with
      | nil =>
        cases ht
        exact .inl ⟨rfl, h⟩
      | cons d above' =>
        cases ht
        exact .inr (.inr ⟨above', rest', rfl, h⟩)
  · rintro (⟨rfl, h⟩ | h | ⟨above, rest', rfl, h⟩)
    · exact .inr ⟨[], rest, rfl, h⟩
    · exact .inl h
    · exact .inr ⟨c :: above, rest', rfl, h⟩

theorem matches_directories :
    Matches (.anyDirectories :: ts) t ↔ Matches ts t ∨ MatchesAfter ts t := by
  constructor
  · intro h
    cases h with
    | char admitted => cases admitted
    | stay h => exact .inl h
    | descend above h => exact .inr (.inr ⟨above, _, rfl, h⟩)
    | all _ h => exact .inr (.inl h)
  · rintro (h | h | ⟨above, rest, rfl, h⟩)
    · exact .stay h
    · exact .all t h
    · exact .descend above h

/-! ## Parts of patterns -/

/-- Tokens after each other match texts after each other. -/
theorem Matches.append {us : List Token} {u : Text} (h : Matches ts t) (hu : Matches us u)
    (single : .anyDirectories ∉ ts) : Matches (ts ++ us) (t ++ u) := by
  induction h with
  | done => exact hu
  | char admitted _ ih => exact .char admitted (ih (List.not_mem_of_not_mem_cons single))
  | sequence taken _ ih =>
    rw [List.append_assoc]
    exact .sequence taken (ih (List.not_mem_of_not_mem_cons single))
  | _ => exact absurd List.mem_cons_self single

theorem matches_map_char (n : Text) : Matches (n.map .char) n := by
  induction n with
  | nil => exact .done
  | cons c n ih => exact .char (beq_self_eq_true c) ih

/-- Characters that are no wildcards stand for themselves. -/
theorem eq_of_matches_map_char {front t : Text} {ts : List Token}
    (h : Matches (front.map .char ++ ts) t) : ∃ rest, t = front ++ rest ∧ Matches ts rest := by
  induction front generalizing t with
  | nil => exact ⟨t, rfl, h⟩
  | cons c front ih =>
    rw [List.map_cons, List.cons_append] at h
    have one : Token.char c ≠ .anySequence := nofun
    obtain ⟨d, u, rfl, admitted, after⟩ := (matches_char one nofun).mp h
    obtain ⟨rest, rfl, tail⟩ := ih after
    obtain rfl : d = c := by simpa [Token.admits] using admitted
    exact ⟨rest, rfl, tail⟩

/-- Two tokens for directories after each other are as good as one. -/
theorem matches_directories_twice : Matches (.anyDirectories :: .anyDirectories :: ts) t ↔
    Matches (.anyDirectories :: ts) t := by
  rw [matches_directories, or_iff_left_of_imp]
  rintro (h | ⟨above, rest, rfl, h⟩)
  · rw [matches_directories] at h
    rcases h with h | h | ⟨above, rest, none, _⟩
    · exact .all t h
    · exact .all t h
    · simp at none
  · rw [matches_directories] at h
    rcases h with h | h | ⟨above', rest', rfl, h⟩
    · exact .descend above h
    · exact .all _ h
    · rw [← List.cons_append, ← List.append_assoc]
      exact .descend _ h

/-- What is put before patterns that match the same leaves them matching the same. -/
theorem matches_append_congr {us : List Token} (same : ∀ t, Matches ts t ↔ Matches us t)
    (before : List Token) : ∀ t, Matches (before ++ ts) t ↔ Matches (before ++ us) t := by
  have keeps {ts us : List Token} (same : ∀ t, Matches ts t ↔ Matches us t) (token : Token)
      {t : Text} (h : Matches (token :: ts) t) : Matches (token :: us) t := by
    cases h with
    | char admitted h => exact .char admitted ((same _).mp h)
    | sequence taken h => exact .sequence taken ((same _).mp h)
    | stay h => exact .stay ((same _).mp h)
    | descend above h => exact .descend above ((same _).mp h)
    | all t h => exact .all t ((same _).mp h)
  induction before with
  | nil => exact same
  | cons token before ih =>
    exact fun t => ⟨keeps ih token, keeps (fun t => (ih t).symm) token⟩

/-! ## Tries -/

theorem attempt_single {token : Token} (sequence : token ≠ .anySequence)
    (directories : token ≠ .anyDirectories) (t : Text) : attempt (token :: ts) t =
      match t with
      | [] => .exhausted
      | c :: rest => if token.admits c then attempt ts rest else .mismatch := by
  cases token with
  | anySequence => exact absurd rfl sequence
  | anyDirectories => exact absurd rfl directories
  | _ => cases t <;> rw [attempt] <;> nofun

/-- A try that comes to a match is right. -/
theorem matches_of_attempt (h : attempt ts t = .match) : Matches ts t := by
  induction ts generalizing t with
  | nil =>
    cases t with
    | nil => exact .done
    | cons => cases h
  | cons token ts ih =>
    by_cases sequence : token = .anySequence
    · subst sequence
      rw [attempt] at h
      induction t with
      | nil => exact matches_sequence_nil.mpr (ih h)
      | cons c rest ih' =>
        rw [tryEnds] at h
        split at h
        · exact matches_sequence_cons.mpr (.inr (ih' h))
        · exact matches_sequence_cons.mpr (.inl (ih h))
    by_cases directories : token = .anyDirectories
    · subst directories
      have after {u : Text} (h : tryAfterSlashes (attempt ts) u = .match) : MatchesAfter ts u := by
        induction u with
        | nil => exact .inl (ih h)
        | cons c rest ih' =>
          rw [tryAfterSlashes] at h
          rw [matchesAfter_cons]
          split at h
          · rename_i slash
            split at h
            · exact .inr (ih' h)
            · exact .inl ⟨slash, ih h⟩
          · exact .inr (ih' h)
      rw [attempt] at h
      rw [matches_directories]
      split at h
      · exact .inr (after h)
      · exact .inl (ih h)
    · rw [attempt_single sequence directories] at h
      split at h
      · cases h
      · split at h
        · exact .char ‹_› (ih h)
        · cases h

/-- Tokens among which one for directories stands only at the beginning, after a slash or
after its like. -/
def Placed : List Token → Prop
  | [] => True
  | token :: ts =>
    (ts.head? = some .anyDirectories → token = .char '/' ∨ token = .anyDirectories) ∧ Placed ts

/-- An end of a text that is left for tokens: any, but for directories one after a slash. -/
structure LeftFor (ts : List Token) (t : Text) (u : Text) : Prop where
  suffix : u <:+ t
  after : ts.head? = some .anyDirectories → u = t ∨ u = [] ∨ '/' :: u <:+ t

/-- What a try without a match says about a text and its ends. -/
structure Fails (ts : List Token) (t : Text) (o : Outcome) : Prop where
  mismatch : o = .mismatch → ¬ Matches ts t
  exhausted : o = .exhausted → ∀ u, LeftFor ts t u → ¬ Matches ts u

theorem fails_nil (t : Text) : Fails [] t (attempt [] t) := by
  cases t with
  | nil => exact ⟨nofun, nofun⟩
  | cons c rest => exact ⟨fun _ => nofun, nofun⟩

/-- Tries of a star, if what follows is no token for directories. -/
theorem fails_sequence (single : ts.head? ≠ some .anyDirectories)
    (ih : ∀ t, Fails ts t (attempt ts t)) (t : Text) :
    Fails (.anySequence :: ts) t (tryEnds (attempt ts) t) := by
  -- Without a token for directories, every end is left.
  have left {t u : Text} (h : u <:+ t) : LeftFor ts t u := ⟨h, fun head => absurd head single⟩
  induction t with
  | nil =>
    refine ⟨fun h => ?_, fun h u hu => ?_⟩
    · rw [matches_sequence_nil]
      exact (ih []).mismatch h
    · rw [List.suffix_nil.mp hu.suffix, matches_sequence_nil]
      exact (ih []).exhausted h [] (left List.suffix_rfl)
  | cons c rest ih' =>
    rw [tryEnds]
    split
    · rename_i first
      have here := (ih (c :: rest)).mismatch first
      have whole {o : Outcome} (ho : tryEnds (attempt ts) rest = o)
          (none : ¬ Matches (.anySequence :: ts) rest) :
          ¬ Matches (.anySequence :: ts) (c :: rest) := by
        rw [matches_sequence_cons, not_or]
        exact ⟨here, none⟩
      refine ⟨fun h => whole h (ih'.mismatch h), fun h u hu => ?_⟩
      have none (v : Text) (hv : v <:+ rest) : ¬ Matches (.anySequence :: ts) v :=
        ih'.exhausted h v ⟨hv, nofun⟩
      rcases List.suffix_cons_iff.mp hu.suffix with rfl | hu
      · exact whole h (none rest List.suffix_rfl)
      · exact none u hu
    · rename_i decided
      refine ⟨fun h => absurd h decided, fun h u hu match' => ?_⟩
      obtain ⟨taken, v, rfl, hv⟩ : ∃ taken v, u = taken ++ v ∧ Matches ts v := by
        cases match' with
        | char admitted => cases admitted
        | sequence taken hv => exact ⟨taken, _, rfl, hv⟩
      exact (ih _).exhausted h v (left ((List.suffix_append taken v).trans hu.suffix)) hv

/-- Tries after the slashes of a text. -/
theorem fails_after (ih : ∀ t, Fails ts t (attempt ts t)) (t : Text) :
    (tryAfterSlashes (attempt ts) t = .mismatch → ¬ MatchesAfter ts t) ∧
      (tryAfterSlashes (attempt ts) t = .exhausted → ∀ u, u <:+ t → ¬ MatchesAfter ts u) := by
  induction t with
  | nil =>
    have nothing : MatchesAfter ts [] ↔ Matches ts [] := by
      refine ⟨?_, .inl⟩
      rintro (h | ⟨above, rest, none, _⟩)
      · exact h
      · simp at none
    refine ⟨fun h => ?_, fun h u hu => ?_⟩
    · rw [nothing]
      exact (ih []).mismatch h
    · rw [List.suffix_nil.mp hu, nothing]
      exact (ih []).exhausted h [] ⟨List.suffix_rfl, fun _ => .inl rfl⟩
  | cons c rest ih' =>
    -- Where nothing is tried after `c`, the ends are those of `rest`.
    have passed (here : ¬ (c = '/' ∧ Matches ts rest)) :
        (tryAfterSlashes (attempt ts) rest = .mismatch → ¬ MatchesAfter ts (c :: rest)) ∧
          (tryAfterSlashes (attempt ts) rest = .exhausted →
            ∀ u, u <:+ c :: rest → ¬ MatchesAfter ts u) := by
      refine ⟨fun h => ?_, fun h u hu => ?_⟩
      · rw [matchesAfter_cons, not_or]
        exact ⟨here, ih'.1 h⟩
      · rcases List.suffix_cons_iff.mp hu with rfl | hu
        · rw [matchesAfter_cons, not_or]
          exact ⟨here, ih'.2 h rest List.suffix_rfl⟩
        · exact ih'.2 h u hu
    rw [tryAfterSlashes]
    split
    · rename_i slash
      subst slash
      split
      · rename_i first
        exact passed fun h => (ih rest).mismatch first h.2
      · rename_i decided
        refine ⟨fun h => absurd h decided, fun h u hu => ?_⟩
        have none (v : Text) (hv : v <:+ rest) (after : v = rest ∨ v = [] ∨ '/' :: v <:+ rest) :
            ¬ Matches ts v := (ih rest).exhausted h v ⟨hv, fun _ => after⟩
        rintro (nothing | ⟨above, v, rfl, hv⟩)
        · exact none [] List.nil_suffix (.inr (.inl rfl)) nothing
        · have behind : '/' :: v <:+ '/' :: rest := (List.suffix_append above _).trans hu
          rcases List.suffix_cons_iff.mp behind with same | behind
          · cases same
            exact none _ List.suffix_rfl (.inl rfl) hv
          · exact none v ((List.suffix_cons '/' v).trans behind) (.inr (.inr behind)) hv
    · rename_i other
      exact passed fun h => other h.1

theorem fails_directories (ih : ∀ t, Fails ts t (attempt ts t)) (t : Text) :
    Fails (.anyDirectories :: ts) t (attempt (.anyDirectories :: ts) t) := by
  rw [attempt]
  split
  · rename_i first
    have here := (ih t).mismatch first
    obtain ⟨mismatch, exhausted⟩ := fails_after ih t
    refine ⟨fun h => ?_, fun h u hu => ?_⟩
    · rw [matches_directories, not_or]
      exact ⟨here, mismatch h⟩
    · rw [matches_directories, not_or]
      refine ⟨fun hu' => ?_, exhausted h u hu.suffix⟩
      rcases hu.after rfl with rfl | rfl | ⟨above, rfl⟩
      · exact here hu'
      · exact exhausted h t List.suffix_rfl (.inl hu')
      · exact exhausted h _ List.suffix_rfl (.inr ⟨above, u, rfl, hu'⟩)
  · rename_i decided
    refine ⟨fun h => absurd h decided, fun h u hu => ?_⟩
    have none (v : Text) (hv : v <:+ t) (after : v = t ∨ v = [] ∨ '/' :: v <:+ t) :
        ¬ Matches ts v := (ih t).exhausted h v ⟨hv, fun _ => after⟩
    rw [matches_directories, not_or]
    refine ⟨none u hu.suffix (hu.after rfl), ?_⟩
    rintro (nothing | ⟨above, v, hu', hv⟩)
    · exact none [] List.nil_suffix (.inr (.inl rfl)) nothing
    · subst hu'
      have behind : '/' :: v <:+ t := (List.suffix_append above _).trans hu.suffix
      exact none v ((List.suffix_cons '/' v).trans behind) (.inr (.inr behind)) hv

theorem fails_single {token : Token} (sequence : token ≠ .anySequence)
    (directories : token ≠ .anyDirectories)
    (placed : ts.head? = some .anyDirectories → token = .char '/')
    (ih : ∀ t, Fails ts t (attempt ts t)) (t : Text) :
    Fails (token :: ts) t (attempt (token :: ts) t) := by
  rw [attempt_single sequence directories]
  split
  · refine ⟨nofun, fun _ u hu => ?_⟩
    rw [List.suffix_nil.mp hu.suffix, matches_char sequence directories]
    rintro ⟨_, _, none, _⟩
    cases none
  · rename_i c rest
    split
    · refine ⟨fun h => ?_, fun h u hu => ?_⟩
      · rw [matches_char sequence directories]
        rintro ⟨_, _, first, _, h'⟩
        cases first
        exact (ih _).mismatch h h'
      · rw [matches_char sequence directories]
        rintro ⟨d, v, rfl, admitted, hv⟩
        refine (ih rest).exhausted h v ⟨?_, fun head => ?_⟩ hv
        · rcases List.suffix_cons_iff.mp hu.suffix with same | behind
          · cases same
            exact List.suffix_rfl
          · exact (List.suffix_cons d v).trans behind
        · rw [placed head] at admitted
          obtain rfl : d = '/' := by simpa [Token.admits] using admitted
          rcases List.suffix_cons_iff.mp hu.suffix with same | behind
          · cases same
            exact .inl rfl
          · exact .inr (.inr behind)
    · rename_i refused
      refine ⟨fun _ => ?_, nofun⟩
      rw [matches_char sequence directories]
      rintro ⟨_, _, first, admitted, _⟩
      cases first
      exact refused admitted

theorem fails_attempt (placed : Placed ts) : ∀ t, Fails ts t (attempt ts t) := by
  induction ts with
  | nil => exact fails_nil
  | cons token ts ih =>
    have ih := ih placed.2
    by_cases sequence : token = .anySequence
    · subst sequence
      intro t
      rw [attempt]
      exact fails_sequence (fun head => by simpa using placed.1 head) ih t
    by_cases directories : token = .anyDirectories
    · subst directories
      exact fails_directories ih
    · refine fails_single sequence directories (fun head => ?_) ih
      exact (placed.1 head).resolve_right directories

/-- A pattern admits just the texts that it stands for. -/
theorem admits_iff (placed : Placed ts) : admits ts t = true ↔ Matches ts t := by
  rw [admits, beq_iff_eq]
  refine ⟨matches_of_attempt, fun h => ?_⟩
  have fails := fails_attempt placed t
  cases outcome : attempt ts t with
  | «match» => rfl
  | mismatch => exact absurd h (fails.mismatch outcome)
  | exhausted => exact absurd h (fails.exhausted outcome t ⟨List.suffix_rfl, fun _ => .inl rfl⟩)

end Glob

end StyleTypings
