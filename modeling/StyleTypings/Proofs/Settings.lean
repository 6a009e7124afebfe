/-
Settings — what is written for settings is read back.

The printer puts every item on a line of its own, and the reader looks past white space and a
comma for the next item or for the bracket at the end.  So reading goes through what is still
to come (`remaining`), item by item: through the texts of a list, the pairs of a dictionary,
and the members of the settings themselves (`takes_readMembers`), where each key reads what is
written for its value (`Key.reads_value`).

The texts may hold any characters.  Dictionaries are read into the order of their names, so
settings are read back in this order (`read_print_eq`), and as they were if they are in it
already, as settings are that have been read (`ordered_of_read`).
-/
import StyleTypings.Settings.Printer
import StyleTypings.Settings.Reader
import StyleTypings.Proofs.Files.Slashes
import StyleTypings.Proofs.Files.Trees
import StyleTypings.Proofs.Json.Reading

namespace StyleTypings

/-! ## Dictionaries -/

namespace Dictionary

/-- A dictionary in the order of its names, with no name given twice. -/
def Ordered (d : Dictionary) : Prop := d.Pairwise (·.1 < ·.1)

instance (d : Dictionary) : Decidable d.Ordered := inferInstanceAs (Decidable (d.Pairwise _))

theorem mem_insert {d : Dictionary} {name value : Text} {x : Text × Text}
    (h : x ∈ d.insert name value) : x = (name, value) ∨ x ∈ d := by
  induction d with
  | nil => exact .inl (List.mem_singleton.mp h)
  | cons y rest ih =>
    rw [insert] at h
    split at h
    · exact (List.mem_cons.mp h).imp id (.tail _)
    split at h
    · exact List.mem_cons.mp h
    · rcases List.mem_cons.mp h with rfl | h
      · exact .inr List.mem_cons_self
      · exact (ih h).imp id (.tail _)

theorem Ordered.insert {d : Dictionary} (h : d.Ordered) (name value : Text) :
    (d.insert name value).Ordered := by
  induction d with
  | nil => exact List.pairwise_singleton ..
  | cons x rest ih =>
    obtain ⟨first, others⟩ := List.pairwise_cons.mp h
    rw [Dictionary.insert]
    split
    · rename_i same
      subst same
      exact List.pairwise_cons.mpr ⟨first, others⟩
    rename_i other
    split
    · rename_i le
      have before : name < x.1 := lt_of_le_of_ne (Path.textLe_iff.mp le) (Ne.symm other)
      refine List.pairwise_cons.mpr ⟨?_, h⟩
      exact List.forall_mem_cons.mpr ⟨before, fun y hy => before.trans (first y hy)⟩
    · rename_i le
      refine List.pairwise_cons.mpr ⟨fun y hy => ?_, ih others⟩
      rcases mem_insert hy with rfl | hy
      · exact not_le.mp fun h => le (Path.textLe_iff.mpr h)
      · exact first y hy

theorem ordered_ofPairs (ps : List (Text × Text)) : (ofPairs ps).Ordered := by
  induction ps using List.reverseRecOn with
  | nil => exact List.Pairwise.nil
  | append_singleton ps x ih =>
    rw [ofPairs, insertAll, List.foldl_concat]
    exact Ordered.insert ih x.1 x.2

/-- What comes after all names is put at the end. -/
theorem insert_last {d : Dictionary} {name : Text} (last : ∀ x ∈ d, x.1 < name) (value : Text) :
    d.insert name value = d ++ [(name, value)] := by
  induction d with
  | nil => rfl
  | cons x rest ih =>
    obtain ⟨first, others⟩ := List.forall_mem_cons.mp last
    have before : ¬ Path.textLe name x.1 = true := by
      rw [Path.textLe_iff, not_le]
      exact first
    rw [insert, if_neg first.ne, if_neg before, ih others, List.cons_append]

/-- A dictionary in order is made from its own pairs. -/
theorem Ordered.ofPairs_eq {d : Dictionary} (h : d.Ordered) : ofPairs d = d := by
  induction d using List.reverseRecOn with
  | nil => rfl
  | append_singleton d x ih =>
    -- The last pair is put in last, and its name comes after all that are there.
    obtain ⟨before, _, last⟩ := List.pairwise_append.mp h
    have start : ofPairs (d ++ [x]) = (ofPairs d).insert x.1 x.2 := List.foldl_concat ..
    rw [start, ih before]
    exact insert_last (fun y hy => last y hy x (List.mem_singleton_self x)) x.2

end Dictionary

namespace Settings

open Json (quoted)
open Json.Reader (Takes Reads hasElement hasMember elements members)
open Json.Reader (reads_text takes_begin takes_bound takes_colon takes_endList takes_endObject
  takes_peek_cons takes_skip takes_string)

/-! ## Brackets -/

/-- What stands between an opening bracket, or one of the items, and the end: the items that
are still to come, and the bracket that ends them. -/
def remaining (depth : ℕ) (closing : Char) : Bool → List Text → Text
  | true, [] => [closing]
  | false, [] => '\n' :: (indent depth ++ [closing])
  | true, item :: items =>
    '\n' :: (indent (depth + 1) ++ (item ++ remaining depth closing false items))
  | false, item :: items =>
    ',' :: '\n' :: (indent (depth + 1) ++ (item ++ remaining depth closing false items))

theorem joinWith_lines (depth : ℕ) (closing : Char) (item : Text) (items : List Text) :
    Text.joinWith [','] ((item :: items).map fun t => ['\n'] ++ indent (depth + 1) ++ t) ++
      ('\n' :: (indent depth ++ [closing])) = remaining depth closing true (item :: items) := by
  induction items generalizing item with
  | nil => simp [Text.joinWith, remaining]
  | cons next items ih =>
    rw [List.map_cons, Text.joinWith_cons _ _ (by simp), List.append_assoc, ih]
    simp [remaining]

theorem bracketed_eq (depth : ℕ) (opening closing : Char) (items : List Text) :
    bracketed depth opening closing items = opening :: remaining depth closing true items := by
  cases items with
  | nil => rfl
  | cons item items => simp [bracketed, ← joinWith_lines]

theorem length_le_remaining (depth : ℕ) (closing : Char) (first : Bool) (items : List Text) :
    items.length ≤ (remaining depth closing first items).length := by
  induction items generalizing first with
  | nil => exact Nat.zero_le _
  | cons item items ih =>
    have := ih false
    cases first <;> simp [remaining] <;> omega

/-- Every item takes a character, so reading them does not reach its bound. -/
theorem lt_bound (depth : ℕ) (closing : Char) (items : List Text) (after : Text) :
    items.length < 2 * (remaining depth closing true items ++ after).length + 2 := by
  have := length_le_remaining depth closing true items
  rw [List.length_append]
  omega

/-- A new line with its indentation is white space. -/
theorem isSpace_line (depth : ℕ) : ∀ c ∈ '\n' :: indent depth, Json.Cursor.isSpace c = true :=
  List.forall_mem_cons.mpr ⟨rfl, fun c hc => by rw [List.eq_of_mem_replicate hc]; rfl⟩

theorem takes_key (name value rest : Text) :
    Takes Json.Reader.string (member name value ++ rest) name (':' :: ' ' :: (value ++ rest)) := by
  rw [member, List.append_assoc, List.append_assoc]
  exact takes_string name _

/-- The value of a member stands behind a space. -/
theorem takes_value {α : Type} {r : Json.Reader α} {written : Text} {a : α}
    (h : Reads r written a) (rest : Text) : Takes r (' ' :: (written ++ rest)) a rest :=
  h [' '] rest (List.forall_mem_singleton.mpr rfl)

section Items

variable (depth : ℕ) (first : Bool) (items : List Text) (t after : Text)

theorem takes_peek_closing {closing : Char} (black : Json.Cursor.isSpace closing = false) :
    Takes Json.Reader.peek (remaining depth closing first [] ++ after) (some closing)
      (closing :: after) := by
  cases first with
  | true => exact takes_peek_cons (List.forall_mem_nil _) black after
  | false =>
    rw [remaining, List.cons_append, List.append_assoc]
    exact takes_peek_cons (isSpace_line depth) black after

theorem takes_peek_item (closing : Char) :
    Takes Json.Reader.peek (remaining depth closing true (('"' :: t) :: items) ++ after) (some '"')
      ('"' :: t ++ (remaining depth closing false items ++ after)) := by
  have line := takes_peek_cons (isSpace_line (depth + 1)) (c := '"') rfl
    (t ++ (remaining depth closing false items ++ after))
  simpa only [remaining, List.cons_append, List.append_assoc] using line

/-- A reader that looks whether an item follows, or the bracket at the end: `first` before the
first item, and past a comma before the others. -/
structure Asks (ask : Bool → Json.Reader Bool) (closing : Char) : Prop where
  black : Json.Cursor.isSpace closing = false
  ends : ∀ first t rest, Takes Json.Reader.peek t (some closing) rest →
    Takes (ask first) t false rest
  begins : ∀ t rest, Takes Json.Reader.peek t (some '"') rest → Takes (ask true) t true rest
  goesOn : ∀ t rest, Takes Json.Reader.peek t (some '"') rest →
    Takes (ask false) (',' :: t) true rest

theorem asks_hasElement : Asks hasElement ']' where
  black := rfl
  ends _ _ _ h := .bind h (.pure false _)
  begins _ _ h := .bind h (.pure true _)
  goesOn _ _ h := .bind (takes_peek_cons (List.forall_mem_nil _) rfl _)
    (.bind (takes_skip ',' _) (.bind h (.pure true _)))

theorem asks_hasMember : Asks hasMember '\x7d' where
  black := rfl
  ends _ _ _ h := .bind h (.pure false _)
  begins _ _ h := .bind h (.pure true _)
  goesOn _ _ h := .bind (takes_peek_cons (List.forall_mem_nil _) rfl _)
    (.bind (takes_skip ',' _) (.bind h (.pure true _)))

namespace Asks

variable {ask : Bool → Json.Reader Bool} {closing : Char} (asks : Asks ask closing)

include asks

theorem nil :
    Takes (ask first) (remaining depth closing first [] ++ after) false (closing :: after) :=
  asks.ends first _ _ (takes_peek_closing depth first after asks.black)

theorem cons :
    Takes (ask first) (remaining depth closing first (('"' :: t) :: items) ++ after) true
      ('"' :: t ++ (remaining depth closing false items ++ after)) := by
  have item := takes_peek_item depth items t after closing
  cases first with
  | true => exact asks.begins _ _ item
  | false => exact asks.goesOn _ _ item

end Asks

theorem takes_elements (expected : Text) : ∀ (ts : List Text) (n : ℕ) (first : Bool),
    ts.length < n → Takes (elements (Json.Reader.text expected) n first)
      (remaining depth ']' first (ts.map quoted) ++ after) ts (']' :: after)
  | [], _ + 1, first, _ => .bind (asks_hasElement.nil depth first after) (.pure [] _)
  | t :: ts, n + 1, first, h =>
    .bind (asks_hasElement.cons depth first (ts.map quoted) _ after)
      (.bind ((reads_text expected t).here _)
        (.bind (takes_elements expected ts n false (Nat.lt_of_succ_lt_succ h)) (.pure _ _)))

theorem takes_members (expected : Text) : ∀ (d : Dictionary) (n : ℕ) (first : Bool),
    d.length < n → Takes (members (Json.Reader.text expected) n first)
      (remaining depth '\x7d' first (d.map fun x => member x.1 (quoted x.2)) ++ after) d
      ('\x7d' :: after)
  | [], _ + 1, first, _ => .bind (asks_hasMember.nil depth first after) (.pure [] _)
  | (name, value) :: d, n + 1, first, h => by
    have rest := takes_members expected d n false (Nat.lt_of_succ_lt_succ h)
    refine .bind (asks_hasMember.cons depth first _ _ after) ?_
    refine .bind (takes_key name (quoted value) _) (.bind (takes_colon _) ?_)
    exact .bind (takes_value (reads_text expected value) _) (.bind rest (.pure _ _))

end Items

theorem reads_list (expected : Text) (depth : ℕ) (ts : List Text) :
    Reads (Json.Reader.list (Json.Reader.text expected)) (bracketed depth '[' ']' (ts.map quoted))
      ts := by
  intro spaces after white
  rw [bracketed_eq, List.append_assoc, List.cons_append]
  have bound := lt_bound depth ']' (ts.map quoted) after
  rw [List.length_map] at bound
  refine .bind (takes_begin white rfl _) (.bind (takes_skip '[' _) (.bind (takes_bound _) ?_))
  exact .bind (takes_elements depth after expected ts _ true bound)
    (.bind (takes_endList after) (.pure ts after))

theorem reads_object (expected : Text) (depth : ℕ) (d : Dictionary) :
    Reads (Json.Reader.object (Json.Reader.text expected)) (printDictionary depth d) d := by
  intro spaces after white
  rw [printDictionary, bracketed_eq, List.append_assoc, List.cons_append]
  have bound := lt_bound depth '\x7d' (d.map fun x => member x.1 (quoted x.2)) after
  rw [List.length_map] at bound
  refine .bind (takes_begin white rfl _) (.bind (takes_skip '\x7b' _) (.bind (takes_bound _) ?_))
  exact .bind (takes_members depth after expected d _ true bound)
    (.bind (takes_endObject after) (.pure d after))

/-! ## Single settings -/

/-- A word is read as the choice that it stands for. -/
theorem reads_choice {α : Type} {choices : List (Text × α)} {word : Text} {a : α}
    (known : choices.lookup word = some a) : Reads (choice choices) (quoted word) a := by
  intro spaces after white
  have chosen : Takes (choiceOf choices word) after a after := by
    rw [choiceOf, known]
    exact .pure a after
  rw [List.append_assoc]
  exact .bind (takes_peek_cons white rfl _) (.bind (takes_string word after) chosen)

theorem parse_escaped (l : LineEnding) : LineEnding.parse l.escaped = .ok l := by
  cases l <;> decide

/-- The settings with the names of their dictionaries in order, each with its last text. -/
def tidied (s : Settings) : Settings :=
  { s with aliases := ⟨.ofPairs s.aliases.exact, .ofPairs s.aliases.starts⟩ }

namespace Key

/-- What settings hold under a key. -/
def item (s : Settings) : Key → Item
  | nameFormat => .nameFormat s.nameFormat
  | exportType => .exportType s.exportType
  | lineEnding => .lineEnding s.lineEnding
  | aliases => .aliases s.aliases.exact
  | aliasPrefixes => .aliasPrefixes s.aliases.starts
  | ignores => .ignores s.ignores

/-- What is written for the value of a key. -/
def written (s : Settings) : Key → Text
  | nameFormat => quoted s.nameFormat.name
  | exportType => quoted s.exportType.name
  | lineEnding => quoted s.lineEnding.escaped
  | aliases => printDictionary 1 s.aliases.exact
  | aliasPrefixes => printDictionary 1 s.aliases.starts
  | ignores => bracketed 1 '[' ']' (s.ignores.map quoted)

theorem find?_name (key : Key) : all.find? (·.name == key.name) = some key := by
  cases key <;> decide

/-- The value of each key is read back. -/
theorem reads_value (s : Settings) (key : Key) :
    Reads key.value (key.written s) (.ok (key.item s.tidied)) := by
  cases key with
  | nameFormat =>
    have known : NameFormat.choices.lookup s.nameFormat.name = some s.nameFormat := by
      cases s.nameFormat <;> decide
    exact (reads_choice known).map (Except.ok ∘ Item.nameFormat)
  | exportType =>
    have known : ExportType.choices.lookup s.exportType.name = some s.exportType := by
      cases s.exportType <;> decide
    exact (reads_choice known).map (Except.ok ∘ Item.exportType)
  | lineEnding =>
    have read := ((reads_text "a string" s.lineEnding.escaped).map LineEnding.parse).map
      (Except.map Item.lineEnding)
    rwa [parse_escaped] at read
  | aliases =>
    exact ((reads_object "a string" 1 s.aliases.exact).map Dictionary.ofPairs).map
      (Except.ok ∘ Item.aliases)
  | aliasPrefixes =>
    exact ((reads_object "a string" 1 s.aliases.starts).map Dictionary.ofPairs).map
      (Except.ok ∘ Item.aliasPrefixes)
  | ignores => exact (reads_list "a string" 1 s.ignores).map (Except.ok ∘ Item.ignores)

end Key

theorem print_eq (s : Settings) :
    s.print = bracketed 0 '\x7b' '\x7d' (Key.all.map fun key => member key.name (key.written s)) :=
  rfl

/-! ## All settings -/

/-- Reading a member with a new key goes on with its value in the settings. -/
theorem takes_readMembers_cons {key : Key} {written : Text} {item : Item}
    (value : Reads key.value written (.ok item)) {seen : List Key} (new : key ∉ seen) (first : Bool)
    {n : ℕ} {s : Settings} {items : List Text} {after rest : Text} {r : Except Text Settings}
    (others : Takes (readMembers n false (key :: seen) (s.apply item))
      (remaining 0 '\x7d' false items ++ after) r rest) :
    Takes (readMembers (n + 1) first seen s)
      (remaining 0 '\x7d' first (member key.name written :: items) ++ after) r rest := by
  refine .bind (asks_hasMember.cons 0 first items _ after) ?_
  refine .bind (takes_key key.name written _) ?_
  rw [key.find?_name]
  have unseen : seen.contains key = false := by simpa using new
  simp only [unseen]
  exact .bind (takes_colon _) (.bind (takes_value value _) others)

/-- Members with different keys that are new are all read. -/
theorem takes_readMembers (s : Settings) (after : Text) : ∀ (keys seen : List Key) (n : ℕ)
    (first : Bool) (s₀ : Settings), keys.length < n → keys.Nodup → (∀ key ∈ keys, key ∉ seen) →
      Takes (readMembers n first seen s₀)
        (remaining 0 '\x7d' first (keys.map fun key => member key.name (key.written s)) ++ after)
        (.ok (keys.foldl (fun s₀ key => s₀.apply (key.item s.tidied)) s₀)) ('\x7d' :: after)
  | [], _, _ + 1, first, s₀, _, _, _ => .bind (asks_hasMember.nil 0 first after) (.pure _ _)
  | key :: keys, seen, n + 1, first, s₀, bound, distinct, new => by
    -- The key just read joins those seen, and the keys to come differ from it.
    obtain ⟨other, distinct⟩ := List.nodup_cons.mp distinct
    obtain ⟨first', others⟩ := List.forall_mem_cons.mp new
    refine takes_readMembers_cons (key.reads_value s) first' first ?_
    refine takes_readMembers s after keys _ n false _ (Nat.lt_of_succ_lt_succ bound) distinct ?_
    intro key' h
    rw [List.mem_cons, not_or]
    exact ⟨fun same => other (same ▸ h), others key' h⟩

theorem takes_readValue (s : Settings) : Takes readValue s.print s.tidied [] := by
  rw [print_eq, bracketed_eq, ← List.append_nil (remaining _ _ _ _)]
  have bound := lt_bound 0 '\x7d' (Key.all.map fun key => member key.name (key.written s)) []
  rw [List.length_map] at bound
  refine .bind (takes_begin (List.forall_mem_nil _) rfl _) ?_
  refine .bind (takes_skip '\x7b' _) (.bind (takes_bound _) ?_)
  refine .bind (takes_readMembers s [] Key.all [] _ true default bound (by decide) nofun) ?_
  exact .bind (takes_endObject []) (.pure s.tidied [])

/-- What is written for settings is read back, with the dictionaries in order. -/
theorem read_print_eq (s : Settings) : read s.print = .ok s.tidied := by
  have whole : Takes (do let s ← readValue; Json.Reader.finish; return s) s.print s.tidied [] :=
    .bind (takes_readValue s) (.bind Json.Reader.takes_finish (.pure s.tidied []))
  obtain ⟨p, run⟩ := whole ⟨1, 0⟩
  rw [read, Json.Cursor.ofText, run]
  rfl

/-- Settings whose dictionaries are in order. -/
structure Ordered (s : Settings) : Prop where
  exact : s.aliases.exact.Ordered
  starts : s.aliases.starts.Ordered

theorem Ordered.tidied_eq {s : Settings} (h : s.Ordered) : s.tidied = s := by
  rw [tidied, h.exact.ofPairs_eq, h.starts.ofPairs_eq]

/-- Settings whose dictionaries are in order are read back from what is written for them. -/
theorem read_print {s : Settings} (h : s.Ordered) : read s.print = .ok s := by
  rw [read_print_eq, h.tidied_eq]

/-- Texts of all kinds in every place. -/
def variedSettings : Settings where
  nameFormat := .none
  exportType := .values
  lineEnding := .crLf
  aliases := ⟨[("", "\"\\/"), ("@é", "\x00\x1f\x7f")], [("\r\n\t\x08\x0c", "𝒳\u2028")]⟩
  ignores := ["", "[\"]", "\x7b,\x7d"]

theorem read_print_varied : variedSettings.Ordered ∧
    read variedSettings.print = .ok variedSettings := by
  have ordered : variedSettings.Ordered := ⟨by decide, by decide⟩
  exact ⟨ordered, read_print ordered⟩

/-! ## Settings that are read -/

/-- An item whose dictionary, if it is one, is in order. -/
def Item.Ordered : Item → Prop
  | .aliases d | .aliasPrefixes d => d.Ordered
  | _ => True

theorem Ordered.apply {s : Settings} (h : s.Ordered) {item : Item} (hitem : item.Ordered) :
    (s.apply item).Ordered := by
  cases item with
  | aliases d => exact ⟨hitem, h.starts⟩
  | aliasPrefixes d => exact ⟨h.exact, hitem⟩
  | _ => exact ⟨h.exact, h.starts⟩

open Json.Reader (Ensures)

/-- The dictionaries that are read are in order. -/
theorem ensures_value (key : Key) : Ensures key.value fun r => ∀ i, r = .ok i → i.Ordered := by
  have dictionary : Ensures dictionaryValue Dictionary.Ordered :=
    (Ensures.any _).bind fun ps _ => .pure (Dictionary.ordered_ofPairs ps)
  have plain {i : Item} (hi : i.Ordered) :
      Ensures (return .ok i) fun r : Except Text Item => ∀ i, r = .ok i → i.Ordered :=
    .pure fun _ same => Except.ok.inj same ▸ hi
  cases key with
  | nameFormat => exact (Ensures.any _).bind fun _ _ => plain trivial
  | exportType => exact (Ensures.any _).bind fun _ _ => plain trivial
  | lineEnding =>
    refine (Ensures.any _).bind fun r _ => .pure fun i same => ?_
    cases r with
    | error e => cases same
    | ok l =>
      cases same
      trivial
  | aliases => exact dictionary.bind fun _ h => plain h
  | aliasPrefixes => exact dictionary.bind fun _ h => plain h
  | ignores => exact (Ensures.any _).bind fun _ _ => plain trivial

theorem ensures_readMembers (n : ℕ) (first : Bool) (seen : List Key) {s : Settings}
    (h : s.Ordered) :
    Ensures (readMembers n first seen s) fun r => ∀ s', r = .ok s' → s'.Ordered := by
  induction n generalizing first seen s with
  | zero => exact .failHere _
  | succ n ih =>
    refine (Ensures.any _).bind fun more _ => ?_
    cases more with
    | false => exact .pure fun _ same => Except.ok.inj same ▸ h
    | true =>
      refine (Ensures.any _).bind fun word _ => ?_
      split
      · exact (Ensures.any _).bind fun _ _ => (Ensures.any _).bind fun _ _ => ih false seen h
      · rename_i key _
        by_cases given : seen.contains key = true
        · simp only [given]
          exact .pure nofun
        · simp only [given]
          refine (Ensures.any _).bind fun _ _ => (ensures_value key).bind fun r hr => ?_
          cases r with
          | error e => exact .pure nofun
          | ok item => exact ih false _ (h.apply (hr item rfl))

theorem ensures_readElements (keys : List Key) (first : Bool) {s : Settings} (h : s.Ordered) :
    Ensures (readElements keys first s) fun r => ∀ s', r = .ok s' → s'.Ordered := by
  induction keys generalizing first s with
  | nil => exact .pure fun _ same => Except.ok.inj same ▸ h
  | cons key keys ih =>
    refine (Ensures.any _).bind fun more _ => ?_
    cases more with
    | false => exact .pure fun _ same => Except.ok.inj same ▸ h
    | true =>
      refine (ensures_value key).bind fun r hr => ?_
      cases r with
      | error e => exact .pure nofun
      | ok item => exact ih false (h.apply (hr item rfl))

theorem ensures_closed (isList : Bool) {r : Except Text Settings}
    (h : ∀ s, r = .ok s → s.Ordered) : Ensures (closed isList r) Ordered := by
  cases r with
  | error e => exact nofun
  | ok s => cases isList <;> exact (Ensures.any _).bind fun _ _ => .pure (h s rfl)

/-- Settings that are read have their dictionaries in order. -/
theorem ordered_of_read {t : Text} {s : Settings} (h : read t = .ok s) : s.Ordered := by
  have start : default.Ordered := ⟨List.Pairwise.nil, List.Pairwise.nil⟩
  have value : Ensures readValue Ordered := by
    refine (Ensures.any _).bind fun c _ => ?_
    split
    · exact (Ensures.any _).bind fun _ _ => (ensures_readElements Key.all true start).bind
        fun r hr => ensures_closed true hr
    split
    · exact (Ensures.any _).bind fun _ _ => (Ensures.any _).bind fun n _ =>
        (ensures_readMembers n true [] start).bind fun r hr => ensures_closed false hr
    · exact .mismatch _ c
  have whole : Ensures (do let s ← readValue; Json.Reader.finish; return s) Ordered :=
    value.bind fun _ hs => (Ensures.any _).bind fun _ _ => .pure hs
  rw [read] at h
  cases run : StateT.run (do let s ← readValue; Json.Reader.finish; return s)
      (Json.Cursor.ofText t) with
  | error e =>
    rw [run] at h
    cases h
  | ok x =>
    rw [run] at h
    exact Except.ok.inj h ▸ whole _ x.1 x.2 run

/-- Settings that are read are read back from what is written for them. -/
theorem read_print_of_read {t : Text} {s : Settings} (h : read t = .ok s) :
    read s.print = .ok s := by
  rw [read_print_eq, (ordered_of_read h).tidied_eq]

end Settings

end StyleTypings
