/-
Pieces — a pattern cut at its slashes, and the names it leads to.

A pattern is used in two ways.  As a whole it is matched against the text of a path; cut at
its slashes, its pieces are matched against the names of a path one by one (`Leads`).  The
pieces, read alone, have the tokens that they have in the whole, so the whole is as good as
the pieces with slashes between them (`admitsText_iff`).

What the pieces lead to, the whole matches (`matches_of_leads`).  The reverse fails, because
in the whole a wildcard may take a slash: `*.less` matches `a/b.less`.  Where no token can
take a slash, except for a star right after `**/`, the whole matches nothing but what the
pieces lead to (`leads_of_matches`).
-/
import StyleTypings.Globs.Walk
import StyleTypings.Proofs.Globs.Reading
import Mathlib.Data.List.Chain

namespace StyleTypings

namespace Glob

/-! ## Pieces read alone -/

theorem anyDirectories_mem_addDirectories (reversed : List Token) :
    .anyDirectories ∈ addDirectories reversed := by
  rw [addDirectories]
  split
  · rename_i h
    rw [Bool.and_eq_true, beq_iff_eq] at h
    exact List.mem_of_mem_head? h.2
  · exact List.mem_cons_self

/-- A piece without `**` has the same tokens whatever stands before it and behind it. -/
theorem readFrom_piece {s : Text} {position : Nat} {before : Option Char} {skip : Nat}
    {reversed ts : List Token} (h : readFrom position before skip reversed s = .ok ts)
    (single : .anyDirectories ∉ ts) (passed : skip ≤ s.length) (rest : Text)
    (other : rest.head? ≠ some '*') : ∃ new, ts = reversed.reverse ++ new ∧
      ∀ position' before' reversed', ∃ position'' before'',
        readFrom position' before' skip reversed' (s ++ rest) =
          readFrom position'' before'' 0 (new.reverse ++ reversed') rest := by
  induction s generalizing position before skip reversed with
  | nil =>
    obtain rfl := Except.ok.inj h
    obtain rfl : skip = 0 := Nat.le_zero.mp passed
    exact ⟨[], (List.append_nil _).symm, fun position' before' _ => ⟨position', before', rfl⟩⟩
  | cons c after ih =>
    cases skip with
    | succ skip =>
      obtain ⟨new, tokens, same⟩ := ih h (Nat.le_of_succ_le_succ passed)
      exact ⟨new, tokens, fun position' _ reversed' => same (position' + 1) (some c) reversed'⟩
    | zero =>
      rcases readFrom_cons h with ⟨token, taken, begins⟩ | ⟨taken, begins⟩
      · rw [begins.readFrom] at h
        obtain ⟨new, tokens, same⟩ := ih h begins.taken_le
        refine ⟨token :: new, ?_, fun position' before' reversed' => ?_⟩
        · rw [tokens, List.reverse_cons, List.append_assoc, List.singleton_append]
        · rw [List.cons_append, (begins.append other).readFrom, List.reverse_cons,
            List.append_assoc, List.singleton_append]
          exact same (position' + 1) (some c) (token :: reversed')
      · rw [begins.readFrom] at h
        have member := anyDirectories_mem_addDirectories reversed
        exact absurd ((prefix_of_readFrom h).subset (List.mem_reverse.mpr member)) single

/-- `**` is not read after a character other than a slash. -/
theorem single_of_readFrom {s : Text} {position : Nat} {b : Char} {skip : Nat}
    {reversed ts : List Token} (h : readFrom position (some b) skip reversed s = .ok ts)
    (without : '/' ∉ b :: s) (single : .anyDirectories ∉ reversed) : .anyDirectories ∉ ts := by
  induction s generalizing position b skip reversed with
  | nil =>
    obtain rfl := Except.ok.inj h
    simpa using single
  | cons c after ih =>
    have later := List.not_mem_of_not_mem_cons without
    cases skip with
    | succ skip => exact ih h later single
    | zero =>
      rcases readFrom_cons h with ⟨token, taken, begins⟩ | ⟨taken, begins⟩
      · rw [begins.readFrom] at h
        refine ih h later ?_
        rw [List.mem_cons, not_or]
        exact ⟨begins.ne_anyDirectories.symm, single⟩
      · have slash : b = '/' := by
          cases begins with
          | last place => simpa using place
          | inside place => simpa using place
        exact absurd (slash ▸ List.mem_cons_self) without

/-- A piece with `**` in it is `**`. -/
theorem eq_of_directories {s : Text} {ts : List Token} (h : tokensOf s = .ok ts)
    (without : '/' ∉ s) (directories : .anyDirectories ∈ ts) :
    s = ['*', '*'] ∧ ts = [.anyDirectories] := by
  cases s with
  | nil =>
    obtain rfl := Except.ok.inj h
    cases directories
  | cons c after =>
    rcases readFrom_cons h with ⟨token, taken, begins⟩ | ⟨taken, begins⟩
    · rw [tokensOf, begins.readFrom] at h
      refine absurd directories (single_of_readFrom h without ?_)
      simpa using begins.ne_anyDirectories.symm
    · cases begins with
      | last place => exact ⟨rfl, (Except.ok.inj h).symm⟩
      | inside place rest => simp at without

theorem ofTokens_eq_directories {ts : List Token} :
    Piece.ofTokens ts = .directories ↔ .anyDirectories ∈ ts := by
  rw [Piece.ofTokens]
  split
  · rename_i h
    exact iff_of_true rfl (by simpa using h)
  · rename_i h
    refine iff_of_false ?_ (by simpa using h)
    split <;> nofun

theorem tokens_ofTokens {ts : List Token} (single : .anyDirectories ∉ ts) :
    (Piece.ofTokens ts).tokens = ts := by
  have literals : ∀ {ts : List Token} {n : Text}, ts.mapM Token.literal? = some n →
      n.map .char = ts := by
    intro ts
    induction ts with
    | nil =>
      rintro n ⟨⟩
      rfl
    | cons token ts ih =>
      intro n h
      simp only [List.mapM_cons, Option.bind_eq_bind, Option.bind_eq_some_iff] at h
      obtain ⟨c, hc, m, hm, heq⟩ := h
      cases heq
      cases token <;> cases hc
      rw [List.map_cons, ih hm]
  rw [Piece.ofTokens, if_neg (by simpa using single)]
  split
  · exact literals ‹_›
  · rfl

/-! ## The tokens of the whole -/

/-- The tokens of pieces with slashes between them, where `**` takes the slash after it. -/
def spread : List Piece → List Token
  | [] => []
  | .directories :: rest => .anyDirectories :: spread rest
  | p :: rest => p.tokens ++
      match rest with
      | [] => []
      | _ :: _ => .char '/' :: spread rest

theorem spread_singleton (p : Piece) : spread [p] = p.tokens := by
  cases p with
  | directories => rfl
  | _ => exact List.append_nil _

theorem spread_cons {p : Piece} (one : p ≠ .directories) {rest : List Piece} (h : rest ≠ []) :
    spread (p :: rest) = p.tokens ++ .char '/' :: spread rest := by
  obtain ⟨q, rest, rfl⟩ := List.exists_cons_of_ne_nil h
  cases p with
  | directories => exact absurd rfl one
  | _ => rfl

theorem head?_mergeDirectories (ps : List Piece) : (mergeDirectories ps).head? = ps.head? := by
  fun_induction mergeDirectories ps with
  | case1 rest ih => exact ih
  | case2 => rfl
  | case3 => rfl

theorem matches_spread_mergeDirectories (ps : List Piece) :
    ∀ t, Matches (spread (mergeDirectories ps)) t ↔ Matches (spread ps) t := by
  fun_induction mergeDirectories ps with
  | case1 rest ih => exact fun t => (ih t).trans matches_directories_twice.symm
  | case2 p rest _ ih =>
    by_cases one : p = .directories
    · subst one
      exact matches_append_congr ih [.anyDirectories]
    · cases rest with
      | nil => exact fun t => .rfl
      | cons q rest =>
        have merged : mergeDirectories (q :: rest) ≠ [] := by
          intro none
          have head := head?_mergeDirectories (q :: rest)
          rw [none] at head
          cases head
        rw [spread_cons one merged, spread_cons one (List.cons_ne_nil q rest)]
        have congr := matches_append_congr ih (p.tokens ++ [.char '/'])
        simpa only [List.append_assoc, List.singleton_append] using congr
  | case3 => exact fun _ => .rfl

theorem placed_append {ts us : List Token} (hts : Placed ts) (hus : Placed us)
    (place : us.head? = some .anyDirectories →
      ts = [] ∨ ts.getLast? = some (.char '/') ∨ ts.getLast? = some .anyDirectories) :
    Placed (ts ++ us) := by
  induction ts with
  | nil => exact hus
  | cons token ts ih =>
    cases ts with
    | nil => exact ⟨fun head => by simpa using place head, hus⟩
    | cons next ts =>
      refine ⟨hts.1, ih hts.2 fun head => .inr ?_⟩
      simpa [List.getLast?_cons_cons] using place head

theorem placed_of_single {ts : List Token} (single : .anyDirectories ∉ ts) : Placed ts := by
  induction ts with
  | nil => trivial
  | cons token ts ih =>
    have rest := List.not_mem_of_not_mem_cons single
    exact ⟨fun head => absurd (List.mem_of_mem_head? head) rest, ih rest⟩

/-- Tokens, last first, after which any piece may follow. -/
structure Open (reversed : List Token) : Prop where
  placed : Placed reversed.reverse
  last : reversed = [] ∨ reversed.head? = some (.char '/') ∨ reversed.head? = some .anyDirectories

theorem Open.append {reversed ts : List Token} (h : Open reversed) (hts : Placed ts) :
    Placed (reversed.reverse ++ ts) := by
  refine placed_append h.placed hts fun _ => ?_
  rw [List.getLast?_reverse, List.reverse_eq_nil_iff]
  exact h.last

theorem Open.slash {reversed ts : List Token} (h : Open reversed) (single : .anyDirectories ∉ ts) :
    Open (.char '/' :: (ts.reverse ++ reversed)) := by
  refine ⟨?_, .inr (.inl rfl)⟩
  have closed : .anyDirectories ∉ ts ++ [.char '/'] := by simpa using single
  simpa using h.append (placed_of_single closed)

theorem placed_directories : Placed [.anyDirectories] := ⟨nofun, trivial⟩

theorem Open.addDirectories {reversed : List Token} (h : Open reversed) :
    Open (addDirectories reversed) := by
  rw [Glob.addDirectories]
  split
  · exact h
  · refine ⟨?_, .inr (.inr rfl)⟩
    rw [List.reverse_cons]
    exact h.append placed_directories

theorem matches_addDirectories (reversed ts : List Token) : ∀ t,
    Matches ((addDirectories reversed).reverse ++ ts) t ↔
      Matches (reversed.reverse ++ .anyDirectories :: ts) t := by
  rw [addDirectories]
  split
  · rename_i h
    rw [Bool.and_eq_true, beq_iff_eq] at h
    obtain ⟨before, rfl⟩ := List.head?_eq_some_iff.mp h.2
    rw [List.reverse_cons, List.append_assoc, List.append_assoc]
    exact matches_append_congr (fun t => matches_directories_twice.symm) before.reverse
  · rw [List.reverse_cons, List.append_assoc, List.singleton_append]
    exact fun t => .rfl

/-- The segments of a text give the tokens of their pieces with slashes between them. -/
theorem readFrom_segments {ss : List Text} {tss : List (List Token)}
    (read : List.Forall₂ (fun s ts => tokensOf s = .ok ts) ss tss) (without : ∀ s ∈ ss, '/' ∉ s)
    (position : Nat) {before : Option Char} (place : before = none ∨ before = some '/')
    {reversed : List Token} (ready : Open reversed) :
    ∃ ts, readFrom position before 0 reversed (Text.joinWith ['/'] ss) = .ok ts ∧ Placed ts ∧
      ∀ t, Matches ts t ↔ Matches (reversed.reverse ++ spread (tss.map Piece.ofTokens)) t := by
  induction read generalizing position before reversed with
  | nil => exact ⟨_, rfl, ready.placed, fun t => by rw [List.map_nil, spread, List.append_nil]⟩
  | @cons s ts ss tss first rest ih =>
    obtain ⟨slashless, others⟩ := List.forall_mem_cons.mp without
    by_cases directories : .anyDirectories ∈ ts
    · obtain ⟨rfl, rfl⟩ := eq_of_directories first slashless directories
      have opened := ready.addDirectories
      cases rest with
      | nil =>
        have same := matches_addDirectories reversed []
        rw [List.append_nil] at same
        exact ⟨_, (BeginsDirectories.last place).readFrom position reversed, opened.placed, same⟩
      | @cons s' ts' ss tss first' rest =>
        obtain ⟨out, hout, placed, same⟩ := ih others (position + 3) (.inr rfl) opened
        refine ⟨out, ?_, placed, fun t => ?_⟩
        · rw [Text.joinWith_cons _ _ (List.cons_ne_nil s' ss), ← hout]
          exact (BeginsDirectories.inside place _).readFrom position reversed
        · rw [same, matches_addDirectories]
          rfl
    · have one := mt ofTokens_eq_directories.mp directories
      have tokens := tokens_ofTokens directories
      cases rest with
      | nil =>
        obtain ⟨new, rfl, same⟩ := readFrom_piece first directories (Nat.zero_le _) [] (by simp)
        obtain ⟨position', before', hread⟩ := same position before reversed
        rw [List.append_nil] at hread
        refine ⟨reversed.reverse ++ ts, ?_, ready.append (placed_of_single directories), ?_⟩
        · rw [Text.joinWith, hread, readFrom, List.reverse_append, List.reverse_reverse]
        · rw [List.map_singleton, spread_singleton, tokens]
          exact fun t => .rfl
      | @cons s' ts' ss tss first' rest =>
        obtain ⟨new, rfl, same⟩ := readFrom_piece first directories (Nat.zero_le _)
          ('/' :: Text.joinWith ['/'] (s' :: ss)) (by simp)
        obtain ⟨position', before', hread⟩ := same position before reversed
        obtain ⟨out, hout, placed, same⟩ := ih others (position' + 1) (.inr rfl)
          (ready.slash directories)
        have more : (ts' :: tss).map Piece.ofTokens ≠ [] := List.cons_ne_nil _ _
        refine ⟨out, ?_, placed, fun t => ?_⟩
        · rw [Text.joinWith_cons _ _ (List.cons_ne_nil s' ss), List.append_assoc,
            List.singleton_append, hread, (Begins.char (by decide)).readFrom]
          exact hout
        · rw [same, List.map_cons (l := ts' :: tss), spread_cons one more, tokens]
          simp

/-! ## The pieces of a pattern -/

/-- Texts cut at slashes are put together again, unless a slash is at the end. -/
theorem joinWith_cutAtSlashes {t : Text} (closed : t.getLast? ≠ some '/') :
    Text.joinWith ['/'] (cutAtSlashes t) = t := by
  rw [cutAtSlashes]
  split
  · rename_i last
    rw [beq_iff_eq] at last
    obtain ⟨before, parts⟩ := List.getLast?_eq_some_iff.mp last
    have whole := Text.joinWith_splitOn '/' t
    rw [parts, Text.joinWith_append ['/'] before (List.cons_ne_nil _ _), Text.joinWith,
      List.append_nil] at whole
    rw [parts, List.dropLast_concat]
    rcases before.eq_nil_or_concat with rfl | ⟨init, name, rfl⟩
    · exact whole
    · rw [← whole] at closed
      simp at closed
  · exact Text.joinWith_splitOn '/' t

theorem not_mem_of_mem_cutAtSlashes {t s : Text} (h : s ∈ cutAtSlashes t) : '/' ∉ s := by
  rw [cutAtSlashes] at h
  split at h
  · exact Text.not_mem_of_mem_splitOn (List.dropLast_subset _ h)
  · exact Text.not_mem_of_mem_splitOn h

theorem forall₂_of_mapM {ss : List Text} {tss : List (List Token)}
    (h : ss.mapM tokensOf = .ok tss) :
    List.Forall₂ (fun s ts => tokensOf s = .ok ts) ss tss := by
  induction ss generalizing tss with
  | nil =>
    cases h
    exact .nil
  | cons s ss ih =>
    rw [List.mapM_cons] at h
    obtain ⟨ts, hs, h⟩ := ok_of_bind h
    obtain ⟨rest, hss, h⟩ := ok_of_bind h
    cases h
    exact .cons hs (ih hss)

theorem pieces_eq_ok {t : Text} {ps : List Piece} (h : pieces t = .ok ps) :
    ∃ tss, List.Forall₂ (fun s ts => tokensOf s = .ok ts) (cutAtSlashes t) tss ∧
      ps = mergeDirectories (tss.map Piece.ofTokens) := by
  rw [pieces] at h
  obtain ⟨tss, hts, h⟩ := ok_of_bind h
  exact ⟨tss, forall₂_of_mapM hts, (Except.ok.inj h).symm⟩

/-- A pattern matches as a whole what its pieces match with slashes between them. -/
theorem admitsText_iff {g : Glob} (hg : read g.text = .ok g) {ps : List Piece}
    (hps : pieces g.text = .ok ps) (closed : g.text.getLast? ≠ some '/') (t : Text) :
    g.admitsText t = true ↔ Matches (spread ps) t := by
  obtain ⟨tss, segments, rfl⟩ := pieces_eq_ok hps
  have opened : Open [] := ⟨trivial, .inl rfl⟩
  obtain ⟨ts, hts, placed, same⟩ := readFrom_segments segments
    (fun s hs => not_mem_of_mem_cutAtSlashes hs) 0 (.inl rfl) opened
  rw [joinWith_cutAtSlashes closed, ← tokensOf, (tokensOf_of_read hg).2] at hts
  obtain rfl := Except.ok.inj hts
  rw [admitsText, admits_iff placed, same, matches_spread_mergeDirectories]
  rfl

/-- Pieces among which no two `**` stand after each other, and the others have no `**` in them. -/
structure Cut (ps : List Piece) : Prop where
  single : ∀ p ∈ ps, p ≠ .directories → .anyDirectories ∉ p.tokens
  apart : ps.IsChain fun p q => p = .directories → q ≠ .directories

theorem Cut.tail {p : Piece} {ps : List Piece} (h : Cut (p :: ps)) : Cut ps :=
  ⟨fun q hq => h.single q (.tail _ hq), h.apart.tail⟩

theorem mem_of_mem_mergeDirectories {p : Piece} {ps : List Piece} (h : p ∈ mergeDirectories ps) :
    p ∈ ps := by
  fun_induction mergeDirectories ps with
  | case1 rest ih => exact .tail _ (ih h)
  | case2 q rest _ ih =>
    rcases List.mem_cons.mp h with rfl | h
    · exact List.mem_cons_self
    · exact .tail _ (ih h)
  | case3 => cases h

theorem cut_of_pieces {t : Text} {ps : List Piece} (h : pieces t = .ok ps) : Cut ps := by
  obtain ⟨tss, segments, rfl⟩ := pieces_eq_ok h
  constructor
  · intro p hp one
    obtain ⟨ts, _, rfl⟩ := List.mem_map.mp (mem_of_mem_mergeDirectories hp)
    have single := mt ofTokens_eq_directories.mpr one
    rwa [tokens_ofTokens single]
  · generalize tss.map Piece.ofTokens = ps
    fun_induction mergeDirectories ps with
    | case1 rest ih => exact ih
    | case2 p rest twice ih =>
      refine List.isChain_cons.mpr ⟨fun q hq hp same => ?_, ih⟩
      rw [head?_mergeDirectories, same] at hq
      obtain ⟨others, hrest⟩ := List.head?_eq_some_iff.mp hq
      exact twice others hp hrest
    | case3 => exact .nil

/-! ## Names that pieces lead to -/

/-- Whether pieces lead from a directory down to a path with some names: each takes one name,
and `**` leads on to anything below. -/
inductive Leads : List Piece → List Text → Prop where
  | done : Leads [] []
  | step {p : Piece} {rest : List Piece} {n : Text} {names : List Text}
      (single : .anyDirectories ∉ p.tokens) (admitted : admits p.tokens n = true)
      (h : Leads rest names) : Leads (p :: rest) (n :: names)
  | descend (above : List Text) {p : Piece} {rest : List Piece} {n : Text} {names : List Text}
      (single : .anyDirectories ∉ p.tokens) (admitted : admits p.tokens n = true)
      (h : Leads rest names) : Leads (.directories :: p :: rest) (above ++ n :: names)

theorem Leads.eq_nil_iff {ps : List Piece} {names : List Text} (h : Leads ps names) :
    names = [] ↔ ps = [] := by
  cases h <;> simp

/-- One piece and its name before the others. -/
theorem matches_spread_cons {p : Piece} {rest : List Piece} {n : Text} {names : List Text}
    (single : .anyDirectories ∉ p.tokens) (admitted : admits p.tokens n = true)
    (h : Leads rest names) (hrest : Matches (spread rest) (Text.joinWith ['/'] names)) :
    Matches (spread (p :: rest)) (Text.joinWith ['/'] (n :: names)) := by
  have first : Matches p.tokens n := by
    rw [admits, beq_iff_eq] at admitted
    exact matches_of_attempt admitted
  have one : p ≠ .directories := by
    rintro rfl
    exact single List.mem_cons_self
  by_cases last : rest = []
  · rw [last, h.eq_nil_iff.mpr last, spread_singleton, Text.joinWith]
    exact first
  · rw [spread_cons one last, Text.joinWith_cons _ _ (mt h.eq_nil_iff.mp last), List.append_assoc]
    exact first.append (.char rfl hrest) single

/-- The whole of a pattern matches the text of what its pieces lead to. -/
theorem matches_of_leads {ps : List Piece} {names : List Text} (h : Leads ps names) :
    Matches (spread ps) (Text.joinWith ['/'] names) := by
  induction h with
  | done => exact .done
  | step single admitted h ih => exact matches_spread_cons single admitted h ih
  | descend above single admitted h ih =>
    have below := matches_spread_cons single admitted h ih
    rw [spread]
    rcases above.eq_nil_or_concat with rfl | ⟨init, name, rfl⟩
    · exact .stay below
    · rw [List.concat_eq_append, Text.joinWith_append _ _ (List.cons_ne_nil _ _),
        List.flatMap_append, List.flatMap_singleton, ← List.append_assoc, List.append_assoc,
        List.singleton_append]
      exact .descend _ below

/-! ## Patterns that keep to names -/

/-- Tokens that stand for one character each, and not for a slash. -/
def Within (ts : List Token) : Prop :=
  ∀ token ∈ ts, token ≠ .anySequence ∧ token ≠ .anyDirectories ∧ token.admits '/' = false

instance (ts : List Token) : Decidable (Within ts) := List.decidableBAll _ ts

/-- Pieces in which nothing can take a slash, except for a star right after `**`. -/
def Guarded : List Piece → Prop
  | [] => True
  | .directories :: p :: rest =>
    p.tokens ≠ [] ∧
      Within (if p.tokens.head? = some .anySequence then p.tokens.tail else p.tokens) ∧
      Guarded rest
  | p :: rest => Within p.tokens ∧ Guarded rest

theorem Within.single {ts : List Token} (h : Within ts) : .anyDirectories ∉ ts :=
  fun member => (h _ member).2.1 rfl

/-- What such tokens take is a part without a slash. -/
theorem Within.split {ts us : List Token} {t : Text} (h : Within ts) (hm : Matches (ts ++ us) t) :
    ∃ n rest, t = n ++ rest ∧ '/' ∉ n ∧ Matches ts n ∧ Matches us rest := by
  induction ts generalizing t with
  | nil => exact ⟨[], t, rfl, List.not_mem_nil, .done, hm⟩
  | cons token ts ih =>
    obtain ⟨⟨sequence, directories, slash⟩, others⟩ := List.forall_mem_cons.mp h
    rw [List.cons_append] at hm
    obtain ⟨c, t, rfl, admitted, hm⟩ := (matches_char sequence directories).mp hm
    obtain ⟨n, rest, rfl, without, hn, hrest⟩ := ih others hm
    refine ⟨c :: n, rest, rfl, ?_, .char admitted hn, hrest⟩
    rw [List.mem_cons, not_or]
    refine ⟨?_, without⟩
    rintro rfl
    rw [slash] at admitted
    cases admitted

theorem admits_of_matches {ts : List Token} (single : .anyDirectories ∉ ts) {t : Text}
    (h : Matches ts t) : admits ts t = true := (admits_iff (placed_of_single single)).mpr h

/-- A name that tokens take is the first of a text, where the other pieces follow. -/
theorem exists_names_of_within {rest : List Piece} {ts us : List Token} {t : Text}
    (follows : rest = [] ∧ us = [] ∨ rest ≠ [] ∧ us = .char '/' :: spread rest)
    (later : rest ≠ [] → ∀ {u : Text}, Matches (spread rest) u → Leads rest (u.splitOn '/'))
    (h : Within ts) (hm : Matches (ts ++ us) t) :
    ∃ n names, t.splitOn '/' = n :: names ∧ Matches ts n ∧ Leads rest names := by
  obtain ⟨n, u, rfl, without, hn, hu⟩ := h.split hm
  rcases follows with ⟨rfl, rfl⟩ | ⟨nonempty, rfl⟩
  · cases hu
    exact ⟨n, [], by rw [List.append_nil, List.splitOn_eq_singleton without], hn, .done⟩
  · obtain ⟨c, v, rfl, admitted, hv⟩ := (matches_char (by simp) (by simp)).mp hu
    obtain rfl : c = '/' := by simpa [Token.admits] using admitted
    exact ⟨n, _, List.splitOn_append_cons_self_of_not_mem without v, hn, later nonempty hv⟩

theorem exists_spread_cons (p : Piece) (one : p ≠ .directories) (rest : List Piece) :
    ∃ us, spread (p :: rest) = p.tokens ++ us ∧
      (rest = [] ∧ us = [] ∨ rest ≠ [] ∧ us = .char '/' :: spread rest) := by
  by_cases h : rest = []
  · rw [h, spread_singleton]
    exact ⟨[], (List.append_nil _).symm, .inl ⟨rfl, rfl⟩⟩
  · exact ⟨_, spread_cons one h, .inr ⟨h, rfl⟩⟩

/-- After `**`, pieces lead to whatever they lead to, with more names above. -/
theorem Leads.above {p : Piece} {rest : List Piece} {names : List Text} (above : List Text)
    (h : Leads (.directories :: p :: rest) names) :
    Leads (.directories :: p :: rest) (above ++ names) := by
  cases h with
  | step single => exact absurd List.mem_cons_self single
  | descend above' single admitted h =>
    rw [← List.append_assoc]
    exact .descend _ single admitted h

/-- `**` takes directories from the front of a text, or all of it. -/
theorem leads_of_begun {p : Piece} {rest : List Piece} {us : List Token} {t : Text}
    (begun : ∀ {u : Text}, Matches us u → Leads (.directories :: p :: rest) (u.splitOn '/'))
    (nothing : Matches us [] → Leads (.directories :: p :: rest) (t.splitOn '/'))
    (hm : Matches (.anyDirectories :: us) t) :
    Leads (.directories :: p :: rest) (t.splitOn '/') := by
  rcases matches_directories.mp hm with whole | none | ⟨above, u, rfl, below⟩
  · exact begun whole
  · exact nothing none
  · rw [List.splitOn_append_cons_self]
    exact (begun below).above _

/-- A star right after `**` takes the end of one name, with all the names before it. -/
theorem leads_after_star {p : Piece} {rest : List Piece} {ts : List Token}
    (tokens : p.tokens = .anySequence :: ts) (h : Within ts)
    (later : rest ≠ [] → ∀ {u : Text}, Matches (spread rest) u → Leads rest (u.splitOn '/'))
    {t : Text} (hm : Matches (.anyDirectories :: spread (p :: rest)) t) :
    Leads (.directories :: p :: rest) (t.splitOn '/') := by
  have last (t : Text) : ∃ before name, t.splitOn '/' = before ++ [name] :=
    ⟨_, _, (List.dropLast_append_getLast (List.splitOn_ne_nil '/' t)).symm⟩
  have single : .anyDirectories ∉ p.tokens := by
    rw [tokens, List.mem_cons, not_or]
    exact ⟨nofun, h.single⟩
  have one : p ≠ .directories := by
    rintro rfl
    exact single List.mem_cons_self
  have takes (name : Text) {n : Text} (hn : Matches ts n) : admits p.tokens (name ++ n) = true := by
    refine admits_of_matches single ?_
    rw [tokens]
    exact .sequence name hn
  obtain ⟨us, spread_eq, follows⟩ := exists_spread_cons p one rest
  rw [spread_eq, tokens, List.cons_append] at hm
  refine leads_of_begun (fun {u} hm => ?_) (fun hm => ?_) hm
  · obtain ⟨taken, v, rfl, hv⟩ : ∃ taken v, u = taken ++ v ∧ Matches (ts ++ us) v := by
      cases hm with
      | char admitted => cases admitted
      | sequence taken hv => exact ⟨taken, _, rfl, hv⟩
    obtain ⟨n, names, parts, hn, hrest⟩ := exists_names_of_within follows later h hv
    obtain ⟨before, name, whole⟩ := last taken
    rw [Text.splitOn_append whole parts]
    exact .descend before single (takes name hn) hrest
  · obtain ⟨n, names, parts, hn, hrest⟩ :=
      exists_names_of_within follows later h (matches_sequence_nil.mp hm)
    obtain ⟨rfl, rfl⟩ : [] = n ∧ [] = names := by simpa using parts
    obtain ⟨before, name, whole⟩ := last t
    rw [whole, ← List.append_nil name]
    exact .descend before single (takes name hn) hrest

/-- What follows `**` in a guarded pattern leads to the text that it matches, or, where it is a
single star, to any. -/
theorem leads_after_directories {p : Piece} {rest : List Piece} (nonempty : p.tokens ≠ [])
    (h : Within (if p.tokens.head? = some .anySequence then p.tokens.tail else p.tokens))
    (later : rest ≠ [] → ∀ {u : Text}, Matches (spread rest) u → Leads rest (u.splitOn '/'))
    {t : Text} (hm : Matches (.anyDirectories :: spread (p :: rest)) t) :
    Leads (.directories :: p :: rest) (t.splitOn '/') := by
  by_cases star : p.tokens.head? = some .anySequence
  · obtain ⟨ts, tokens⟩ := List.head?_eq_some_iff.mp star
    rw [if_pos star, tokens, List.tail_cons] at h
    exact leads_after_star tokens h later hm
  · rw [if_neg star] at h
    have one : p ≠ .directories := by
      rintro rfl
      exact h.single List.mem_cons_self
    obtain ⟨us, spread_eq, follows⟩ := exists_spread_cons p one rest
    rw [spread_eq] at hm
    refine leads_of_begun (fun hm => ?_) (fun hm => ?_) hm
    · obtain ⟨n, names, parts, hn, hrest⟩ := exists_names_of_within follows later h hm
      rw [parts]
      exact .descend [] h.single (admits_of_matches h.single hn) hrest
    · obtain ⟨token, ts, tokens⟩ := List.exists_cons_of_ne_nil nonempty
      obtain ⟨sequence, directories, _⟩ := h token (by simp [tokens])
      rw [tokens, List.cons_append, matches_char sequence directories] at hm
      obtain ⟨_, _, none, _⟩ := hm
      cases none

/-- The whole of a guarded pattern matches no text but that of what its pieces lead to. -/
theorem leads_of_matches {ps : List Piece} (h : Guarded ps) (nonempty : ps ≠ []) {t : Text}
    (hm : Matches (spread ps) t) : Leads ps (t.splitOn '/') := by
  fun_induction Guarded ps generalizing t with
  | case1 => exact absurd rfl nonempty
  | case2 p rest ih =>
    obtain ⟨takes, within, guarded⟩ := h
    exact leads_after_directories takes within (fun nonempty _ hu => ih guarded nonempty hu) hm
  | case3 p rest _ ih =>
    obtain ⟨within, guarded⟩ := h
    have one : p ≠ .directories := by
      rintro rfl
      exact within.single List.mem_cons_self
    obtain ⟨us, spread_eq, follows⟩ := exists_spread_cons p one rest
    rw [spread_eq] at hm
    obtain ⟨n, names, parts, hn, hrest⟩ := exists_names_of_within follows
      (fun nonempty _ hu => ih guarded nonempty hu) within hm
    rw [parts]
    exact .step within.single (admits_of_matches within.single hn) hrest

end Glob

end StyleTypings
