import Mathlib.Logic.Basic
import Mathlib.Tactic.SplitIfs
import Provenance.Json.Reader
import Provenance.Proofs.Numerals

/-!
# Written JSON is read back

The text of a value, in either style, is read back as the value if all its numbers are legible, if
the shape that is wanted knows all its members, and if it does not nest too deeply: the writer has no
limit, the reader has.

* `readString?_writeString`: strings.
* `Json.readValue_write`: what the reader makes of the text of a value, in front of whatever follows.
* `Json.readShaped?_write`: the same for a whole text.
-/

namespace Provenance

namespace Json

open Text Numeral

/-! ### Blanks -/

theorem skipBlanks_cons {c : Char} (rest : List Char) (h : isBlank c = false) :
    skipBlanks (c :: rest) = c :: rest :=
  List.dropWhile_cons_of_neg (by rw [h]; exact Bool.false_ne_true)

theorem skipBlanks_newline (style : Style) (level : Nat) (rest : List Char) :
    skipBlanks (style.newline level rest) = skipBlanks rest := by
  cases style with
  | compact => rfl
  | indented =>
      rw [Style.newline, skipBlanks, List.dropWhile_cons_of_pos (by decide),
        List.dropWhile_append_of_pos]
      · rfl
      · intro c hc
        rw [(List.mem_replicate.mp hc).2]
        rfl

theorem length_le_newline (style : Style) (level : Nat) (rest : List Char) :
    rest.length ≤ (style.newline level rest).length := by
  cases style with
  | compact => exact Nat.le_refl _
  | indented =>
      rw [Style.newline, List.length_cons, List.length_append]
      omega

theorem length_le_colon (style : Style) (rest : List Char) :
    rest.length ≤ (style.colon rest).length := by
  cases style <;> simp only [Style.colon, List.length_cons] <;> omega

theorem exists_colon? (style : Style) (rest : List Char) :
    ∃ after, colon? (style.colon rest) = some after ∧ skipBlanks after = skipBlanks rest := by
  cases style with
  | compact => exact ⟨rest, rfl, rfl⟩
  | indented => exact ⟨' ' :: rest, rfl, rfl⟩

/-! ### Strings -/

theorem readChars_escape {found : List Char} {c d : Char} (rest : List Char) (hu : c ≠ 'u')
    (h : escaped? c = some d) : readChars found ('\\' :: c :: rest) = readChars (d :: found) rest := by
  rw [readChars]
  · rw [h]
  all_goals (intros; simp_all)

theorem readChars_unit {found : List Char} {a b c d : Char} {unit : Nat} (rest : List Char)
    (h : hexUnit? a b c d = some unit) (hs : isSurrogate unit = false) :
    readChars found ('\\' :: 'u' :: a :: b :: c :: d :: rest) = readChars (Char.ofNat unit :: found) rest := by
  by_cases hpair : ∃ e f g h more, rest = '\\' :: 'u' :: e :: f :: g :: h :: more
  · obtain ⟨e, f, g, h', more, rfl⟩ := hpair
    rw [readChars]
    simp only [h, hs]
    rfl
  · rw [readChars]
    · simp only [h, hs]
      rfl
    · intro e f g h more heq
      exact hpair ⟨e, f, g, h, more, heq⟩

theorem readChars_plain {found : List Char} {c : Char} (rest : List Char)
    (hquote : c ≠ '"') (hslash : c ≠ '\\') (hc : ¬ c.toNat < 32) :
    readChars found (c :: rest) = readChars (c :: found) rest := by
  rw [readChars, if_neg hc]
  all_goals (intros; simp_all)

theorem hexUnit?_control {n : Nat} (h : n < 32) :
    hexUnit? '0' '0' (Nat.digitChar (n / 16)) (Nat.digitChar (n % 16)) = some n := by
  have hzero : hexDigit? '0' = some 0 := rfl
  rw [hexUnit?, hzero, hexDigit?_digitChar (by omega), hexDigit?_digitChar (by omega)]
  simp only [Option.some.injEq]
  omega

theorem readChars_writeChar (found : List Char) (c : Char) (rest : List Char) :
    readChars found (writeChar c rest) = readChars (c :: found) rest := by
  unfold writeChar
  split_ifs with hquote hslash _ _ _ _ _ hcontrol
  -- first the escapes that have a letter
  iterate 7
    subst_vars
    exact readChars_escape rest (by decide) rfl
  · have hsurrogate : isSurrogate c.toNat = false := decide_eq_false (by omega)
    rw [readChars_unit rest (hexUnit?_control hcontrol) hsurrogate, Char.ofNat_toNat]
  · exact readChars_plain rest hquote hslash hcontrol

theorem readChars_writeChars (found cs rest : List Char) :
    readChars found (cs.foldr writeChar ('"' :: rest)) =
      some (String.ofList (found.reverse ++ cs), rest) := by
  induction cs generalizing found with
  | nil => rw [List.foldr_nil, readChars, List.append_nil]
  | cons c cs ih =>
      rw [List.foldr_cons, readChars_writeChar, ih, List.reverse_cons, List.append_assoc,
        List.singleton_append]

/-- **A written string is read back.** -/
theorem readString?_writeString (text : String) (rest : List Char) :
    readString? (writeString text rest) = some (text, rest) := by
  rw [writeString, readString?, readChars_writeChars, List.reverse_nil, List.nil_append,
    String.ofList_toList]

theorem length_le_writeString (text : String) (rest : List Char) :
    rest.length ≤ (writeString text rest).length := by
  have hchar : ∀ (c : Char) (rest : List Char), rest.length ≤ (writeChar c rest).length := by
    intro c rest
    unfold writeChar
    split_ifs <;> simp only [List.length_cons] <;> omega
  have hchars : ∀ cs : List Char, rest.length ≤ (cs.foldr writeChar ('"' :: rest)).length := by
    intro cs
    induction cs with
    | nil => exact Nat.le_succ _
    | cons c cs ih => exact Nat.le_trans ih (hchar c _)
  exact Nat.le_trans (hchars text.toList) (Nat.le_succ _)

/-! ### Measures of a value -/

mutual

/-- How many containers are nested in one another. -/
def nesting : Json → Nat
  | .array items => itemsNesting items + 1
  | .object members => membersNesting members + 1
  | .null | .bool _ | .number _ | .string _ => 0

/-- How many containers are nested in one another in one of the items. -/
def itemsNesting : List Json → Nat
  | [] => 0
  | item :: rest => max item.nesting (itemsNesting rest)

/-- How many containers are nested in one another in one of the members. -/
def membersNesting : List (String × Json) → Nat
  | [] => 0
  | (_, value) :: rest => max value.nesting (membersNesting rest)

end

mutual

/-- The numbers in a value. -/
def numbers : Json → List Number
  | .array items => itemsNumbers items
  | .object members => membersNumbers members
  | .number value => [value]
  | .null | .bool _ | .string _ => []

/-- The numbers in the items. -/
def itemsNumbers : List Json → List Number
  | [] => []
  | item :: rest => item.numbers ++ itemsNumbers rest

/-- The numbers in the members. -/
def membersNumbers : List (String × Json) → List Number
  | [] => []
  | (_, value) :: rest => value.numbers ++ membersNumbers rest

end

/-- All numbers in a value are legible. -/
def Legible (value : Json) : Prop :=
  ∀ number ∈ value.numbers, number.Legible

/-- A shape knows all members of a value. -/
inductive Shape.Covers : Shape → Json → Prop
  | any (value : Json) : Covers .any value
  | list {item : Shape} {items : List Json} :
      (∀ value ∈ items, Covers item value) → Covers (.list item) (.array items)
  | record {known : List (String × Shape)} {members : List (String × Json)}
      (wanted : String → Shape) :
      (∀ member ∈ members, find? member.1 known = some (wanted member.1)) →
        (∀ member ∈ members, Covers (wanted member.1) member.2) →
          Covers (.record known) (.object members)

theorem Shape.Covers.items {shape : Shape} {item : Json} {rest : List Json}
    (h : shape.Covers (.array (item :: rest))) :
    shape.ofItem.1.Covers item ∧ shape.ofItem.2.Covers (.array rest) := by
  cases h with
  | any => exact ⟨.any _, .any _⟩
  | list hitems =>
      exact ⟨hitems item List.mem_cons_self,
        .list fun value hv => hitems value (List.mem_cons_of_mem _ hv)⟩

theorem Shape.Covers.members {shape : Shape} {key : String} {value : Json}
    {rest : List (String × Json)} (h : shape.Covers (.object ((key, value) :: rest))) :
    (∃ wanted, shape.ofMember? key = some wanted ∧ wanted.Covers value) ∧
      shape.Covers (.object rest) := by
  cases h with
  | any => exact ⟨⟨.any, rfl, .any _⟩, .any _⟩
  | record wanted hknown hcovers =>
      refine ⟨⟨wanted key, hknown (key, value) List.mem_cons_self,
        hcovers (key, value) List.mem_cons_self⟩, ?_⟩
      exact .record wanted (fun member hm => hknown member (List.mem_cons_of_mem _ hm))
        fun member hm => hcovers member (List.mem_cons_of_mem _ hm)

/-! ### The text of a container -/

/-- The items of an array, from the first one on. -/
def writeRow (style : Style) (level : Nat) : List Json → List Char → List Char
  | [], rest => rest
  | item :: items, rest => write style level item (writeItems style level items rest)

/-- The members of an object, from the first one on. -/
def writeTable (style : Style) (level : Nat) : List (String × Json) → List Char → List Char
  | [], rest => rest
  | (key, value) :: members, rest =>
    writeString key (style.colon (write style level value (writeMembers style level members rest)))

mutual

theorem length_le_write (style : Style) : (level : Nat) → (value : Json) → (rest : List Char) →
    rest.length ≤ (write style level value rest).length
  | _, .null, rest | _, .bool true, rest => Nat.le_add_right rest.length 4
  | _, .bool false, rest => Nat.le_add_right rest.length 5
  | _, .number value, rest => by
      rw [write, List.length_append]
      exact Nat.le_add_left _ _
  | _, .string text, rest => length_le_writeString text rest
  | _, .array [], rest | _, .object [], rest => Nat.le_add_right rest.length 2
  | level, .array (item :: items), rest => by
      have hrow := length_le_writeRow style (level + 1) (item :: items)
        (style.newline level (']' :: rest))
      have hend := length_le_newline style level (']' :: rest)
      have hstart := length_le_newline style (level + 1)
        (writeRow style (level + 1) (item :: items) (style.newline level (']' :: rest)))
      rw [write, ← writeRow, List.length_cons]
      rw [List.length_cons] at hend
      omega
  | level, .object ((key, value) :: members), rest => by
      have htable := length_le_writeTable style (level + 1) ((key, value) :: members)
        (style.newline level ('}' :: rest))
      have hend := length_le_newline style level ('}' :: rest)
      have hstart := length_le_newline style (level + 1)
        (writeTable style (level + 1) ((key, value) :: members) (style.newline level ('}' :: rest)))
      rw [write, ← writeTable, List.length_cons]
      rw [List.length_cons] at hend
      omega

theorem length_le_writeRow (style : Style) : (level : Nat) → (items : List Json) →
    (rest : List Char) → rest.length ≤ (writeRow style level items rest).length
  | _, [], rest => Nat.le_refl _
  | level, item :: items, rest =>
      Nat.le_trans (length_le_writeItems style level items rest) (length_le_write style level item _)

theorem length_le_writeItems (style : Style) : (level : Nat) → (items : List Json) →
    (rest : List Char) → rest.length ≤ (writeItems style level items rest).length
  | _, [], rest => Nat.le_refl _
  | level, item :: items, rest => by
      have hnext := length_le_writeItems style level items rest
      have hitem := length_le_write style level item (writeItems style level items rest)
      have hstart := length_le_newline style level
        (write style level item (writeItems style level items rest))
      rw [writeItems, List.length_cons]
      omega

theorem length_le_writeTable (style : Style) : (level : Nat) → (members : List (String × Json)) →
    (rest : List Char) → rest.length ≤ (writeTable style level members rest).length
  | _, [], rest => Nat.le_refl _
  | level, (key, value) :: members, rest => by
      have hnext := length_le_writeMembers style level members rest
      have hvalue := length_le_write style level value (writeMembers style level members rest)
      have hcolon := length_le_colon style
        (write style level value (writeMembers style level members rest))
      have hkey := length_le_writeString key
        (style.colon (write style level value (writeMembers style level members rest)))
      rw [writeTable]
      omega

theorem length_le_writeMembers (style : Style) : (level : Nat) → (members : List (String × Json)) →
    (rest : List Char) → rest.length ≤ (writeMembers style level members rest).length
  | _, [], rest => Nat.le_refl _
  | level, (key, value) :: members, rest => by
      have htable := length_le_writeTable style level ((key, value) :: members) rest
      have hstart := length_le_newline style level
        (writeTable style level ((key, value) :: members) rest)
      rw [writeMembers, ← writeTable, List.length_cons]
      omega

end

/-! ### Scalars -/

theorem isBlank_of_isStart {c : Char} (h : isStart c = true) : isBlank c = false := by
  refine decide_eq_false ?_
  rintro (rfl | rfl | rfl | rfl) <;> cases h

theorem word?_of_isStart {c : Char} (rest : List Char) (h : isStart c = true) :
    word? (c :: rest) = none := by
  unfold word?
  split <;> rename_i heq
  · cases heq
    cases h
  · cases heq
    cases h
  · cases heq
    cases h
  · rfl

theorem readValue_number {fuel room : Nat} {shape : Shape} {number : Number} {rest : List Char}
    (h : number.Legible) (hrest : Ends rest) :
    readValue (fuel + 1) room shape (numberText number ++ rest) = some (.number number, rest) := by
  obtain ⟨c, more, htext, hc⟩ := h.exists_cons
  obtain ⟨numeral, hscan, hnumber⟩ := h
  have hread := scan?_append (numberText number) hrest
  rw [hscan, htext, List.cons_append] at hread
  rw [htext, List.cons_append, readValue, skipBlanks_cons _ (isBlank_of_isStart hc)]
  split <;> rename_i heq
  · cases heq
    cases hc
  · cases heq
    cases hc
  · cases heq
    cases hc
  · simp only [word?_of_isStart _ hc, hread, Option.map_some, hnumber, List.nil_append]

/-! ### Starts and ends -/

/-- A written value starts with a character that is no blank and closes no array. -/
theorem exists_cons_write (style : Style) (level : Nat) {value : Json} (rest : List Char)
    (h : value.Legible) :
    ∃ c more, write style level value rest = c :: more ∧ isBlank c = false ∧ c ≠ ']' := by
  cases value with
  | null => exact ⟨'n', _, rfl, rfl, by decide⟩
  | bool value => cases value <;> exact ⟨_, _, rfl, rfl, by decide⟩
  | number number =>
      obtain ⟨c, more, htext, hc⟩ := (h number List.mem_cons_self).exists_cons
      refine ⟨c, more ++ rest, ?_, isBlank_of_isStart hc, ?_⟩
      · rw [write, htext, List.cons_append]
      · rintro rfl
        cases hc
  | string text => exact ⟨'"', _, rfl, rfl, by decide⟩
  | array items => cases items <;> exact ⟨'[', _, rfl, rfl, by decide⟩
  | object members =>
      rcases members with _ | ⟨⟨key, value⟩, members⟩ <;> exact ⟨'{', _, rfl, rfl, by decide⟩

theorem ends_newline (style : Style) (level : Nat) {rest : List Char} (h : Ends rest) :
    Ends (style.newline level rest) := by
  cases style with
  | compact => exact h
  | indented => exact ends_cons _ (by decide)

theorem ends_writeItems (style : Style) (level : Nat) (items : List Json) {rest : List Char}
    (h : Ends rest) : Ends (writeItems style level items rest) := by
  cases items with
  | nil => exact h
  | cons item items => exact ends_cons _ (by decide)

theorem ends_writeMembers (style : Style) (level : Nat) (members : List (String × Json))
    {rest : List Char} (h : Ends rest) : Ends (writeMembers style level members rest) := by
  rcases members with _ | ⟨⟨key, value⟩, members⟩
  · exact h
  · exact ends_cons _ (by decide)

/-- Only what stands behind the blanks is read. -/
theorem readValue_congr {fuel room : Nat} {shape : Shape} {text text' : List Char}
    (h : skipBlanks text = skipBlanks text') :
    readValue fuel room shape text = readValue fuel room shape text' := by
  cases fuel with
  | zero => rfl
  | succ fuel => rw [readValue, readValue, h]

theorem readItems_congr {fuel room : Nat} {shape : Shape} {text text' : List Char}
    (h : skipBlanks text = skipBlanks text') :
    readItems fuel room shape text = readItems fuel room shape text' := by
  cases fuel with
  | zero => rfl
  | succ fuel => rw [readItems, readItems, readValue_congr h]

theorem readMembers_congr {fuel room : Nat} {shape : Shape} {text text' : List Char}
    (h : skipBlanks text = skipBlanks text') :
    readMembers fuel room shape text = readMembers fuel room shape text' := by
  cases fuel with
  | zero => rfl
  | succ fuel => rw [readMembers, readMembers, h]

/-! ### Values -/

theorem readValue_array {fuel room : Nat} {shape : Shape} {text : List Char}
    (h : ∀ after, skipBlanks text ≠ ']' :: after) :
    readValue (fuel + 1) (room + 1) shape ('[' :: text) =
      (readItems fuel room shape text).map fun found => (.array found.1, found.2) := by
  have hskip : skipBlanks ('[' :: text) = '[' :: text := skipBlanks_cons _ (by decide)
  simp only [readValue, hskip]

theorem readValue_object {fuel room : Nat} {shape : Shape} {text : List Char}
    (h : ∀ after, skipBlanks text ≠ '}' :: after) :
    readValue (fuel + 1) (room + 1) shape ('{' :: text) =
      (readMembers fuel room shape text).map fun found => (.object found.1, found.2) := by
  have hskip : skipBlanks ('{' :: text) = '{' :: text := skipBlanks_cons _ (by decide)
  simp only [readValue, hskip]

/-- A member that the shape knows is read as the value behind its key. -/
theorem readMembers_member {fuel room : Nat} {shape wanted : Shape} {key : String} (style : Style)
    (text : List Char) (h : shape.ofMember? key = some wanted) :
    readMembers (fuel + 1) room shape (writeString key (style.colon text)) =
      match readValue fuel room wanted text with
      | none => none
      | some (value, afterValue) =>
        match skipBlanks afterValue with
        | ',' :: rest =>
          (readMembers fuel room shape rest).map fun found => ((key, value) :: found.1, found.2)
        | '}' :: rest => some ([(key, value)], rest)
        | _ => none := by
  obtain ⟨after, hcolon, hafter⟩ := exists_colon? style text
  have hkey : skipBlanks (writeString key (style.colon text)) = writeString key (style.colon text) :=
    skipBlanks_cons _ (by decide)
  rw [readMembers, hkey, readString?_writeString]
  simp only [hcolon, h, readValue_congr hafter]
  cases readValue fuel room wanted text with
  | none => rfl
  | some found => rfl

theorem legible_array_cons {item : Json} {items : List Json} :
    (Json.array (item :: items)).Legible ↔ item.Legible ∧ (Json.array items).Legible :=
  List.forall_mem_append

theorem legible_object_cons {key : String} {value : Json} {members : List (String × Json)} :
    (Json.object ((key, value) :: members)).Legible ↔
      value.Legible ∧ (Json.object members).Legible :=
  List.forall_mem_append

theorem write_array_cons (style : Style) (level : Nat) (item : Json) (items : List Json)
    (rest : List Char) :
    write style level (.array (item :: items)) rest =
      '[' :: style.newline (level + 1)
        (writeRow style (level + 1) (item :: items) (style.newline level (']' :: rest))) := by
  rw [write, writeRow]

theorem write_object_cons (style : Style) (level : Nat) (key : String) (value : Json)
    (members : List (String × Json)) (rest : List Char) :
    write style level (.object ((key, value) :: members)) rest =
      '{' :: style.newline (level + 1)
        (writeTable style (level + 1) ((key, value) :: members) (style.newline level ('}' :: rest))) := by
  rw [write, writeTable]

theorem writeItems_cons (style : Style) (level : Nat) (item : Json) (items : List Json)
    (rest : List Char) :
    writeItems style level (item :: items) rest =
      ',' :: style.newline level (writeRow style level (item :: items) rest) := by
  rw [writeItems, writeRow]

theorem writeMembers_cons (style : Style) (level : Nat) (key : String) (value : Json)
    (members : List (String × Json)) (rest : List Char) :
    writeMembers style level ((key, value) :: members) rest =
      ',' :: style.newline level (writeTable style level ((key, value) :: members) rest) := by
  rw [writeMembers, writeTable]

mutual

/-- **A written value is read back** in front of what does not continue it, unless it nests deeper
than is allowed. -/
theorem readValue_write (style : Style) : (level : Nat) → (value : Json) → (room : Nat) →
    ∀ {fuel : Nat} {shape : Shape} {rest : List Char}, value.Legible → shape.Covers value →
    Ends rest → 2 * (write style level value rest).length < fuel →
    readValue fuel room shape (write style level value rest) =
      if value.nesting ≤ room then some (value, rest) else none
  | _, .null, _, fuel + 1, _, _, _, _, _, _ => rfl
  | _, .bool true, _, fuel + 1, _, _, _, _, _, _ => rfl
  | _, .bool false, _, fuel + 1, _, _, _, _, _, _ => rfl
  | _, .number value, _, fuel + 1, _, _, hlegible, _, hends, _ =>
      readValue_number (hlegible value List.mem_cons_self) hends
  | _, .string text, _, fuel + 1, _, rest, _, _, _, _ => by
      have hread := readString?_writeString text rest
      rw [writeString, readString?] at hread
      rw [write, writeString, readValue, skipBlanks_cons _ (by decide)]
      simp only [hread]
      rfl
  | _, .array [], 0, fuel + 1, _, _, _, _, _, _ => rfl
  | _, .array [], room + 1, fuel + 1, _, _, _, _, _, _ => rfl
  | _, .object [], 0, fuel + 1, _, _, _, _, _, _ => rfl
  | _, .object [], room + 1, fuel + 1, _, _, _, _, _, _ => rfl
  | _, .array (item :: items), 0, fuel + 1, _, _, _, _, _, _ => rfl
  | _, .object ((key, value) :: members), 0, fuel + 1, _, _, _, _, _, _ => rfl
  | level, .array (item :: items), room + 1, fuel + 1, shape, rest, hlegible, hcovers, _, hfuel => by
      obtain ⟨c, more, hstart, hblank, hc⟩ := exists_cons_write style (level + 1)
        (writeItems style (level + 1) items (style.newline level (']' :: rest)))
        (legible_array_cons.mp hlegible).1
      have hlength := length_le_newline style (level + 1)
        (writeRow style (level + 1) (item :: items) (style.newline level (']' :: rest)))
      have hopen : ∀ after, skipBlanks (style.newline (level + 1) (writeRow style (level + 1)
          (item :: items) (style.newline level (']' :: rest)))) ≠ ']' :: after := by
        intro after heq
        rw [skipBlanks_newline, writeRow, hstart, skipBlanks_cons _ hblank] at heq
        exact hc (List.head_eq_of_cons_eq heq)
      have hclose : skipBlanks (style.newline level (']' :: rest)) = ']' :: rest := by
        rw [skipBlanks_newline]
        rfl
      rw [write_array_cons, List.length_cons] at hfuel
      have hitems := readItems_write style (level + 1) (item :: items) room hlegible hcovers
        (List.cons_ne_nil _ _) (ends_newline style level (ends_cons _ (by decide))) hclose
        (show 2 * _ + 1 < fuel by omega)
      rw [write_array_cons, readValue_array hopen, readItems_congr (skipBlanks_newline _ _ _), hitems,
        apply_ite (Option.map _)]
      simp only [nesting, Nat.add_le_add_iff_right, Option.map_some, Option.map_none]
  | level, .object ((key, value) :: members), room + 1, fuel + 1, shape, rest, hlegible, hcovers, _,
      hfuel => by
      have hlength := length_le_newline style (level + 1)
        (writeTable style (level + 1) ((key, value) :: members) (style.newline level ('}' :: rest)))
      have hopen : ∀ after, skipBlanks (style.newline (level + 1) (writeTable style (level + 1)
          ((key, value) :: members) (style.newline level ('}' :: rest)))) ≠ '}' :: after := by
        intro after heq
        rw [skipBlanks_newline, writeTable, writeString, skipBlanks_cons _ (by decide)] at heq
        cases List.head_eq_of_cons_eq heq
      have hclose : skipBlanks (style.newline level ('}' :: rest)) = '}' :: rest := by
        rw [skipBlanks_newline]
        rfl
      rw [write_object_cons, List.length_cons] at hfuel
      have hmembers := readMembers_write style (level + 1) ((key, value) :: members) room hlegible
        hcovers (List.cons_ne_nil _ _) (ends_newline style level (ends_cons _ (by decide))) hclose
        (show 2 * _ + 1 < fuel by omega)
      rw [write_object_cons, readValue_object hopen, readMembers_congr (skipBlanks_newline _ _ _),
        hmembers, apply_ite (Option.map _)]
      simp only [nesting, Nat.add_le_add_iff_right, Option.map_some, Option.map_none]

theorem readItems_write (style : Style) : (level : Nat) → (items : List Json) → (room : Nat) →
    ∀ {fuel : Nat} {shape : Shape} {rest after : List Char}, (Json.array items).Legible →
    shape.Covers (.array items) → items ≠ [] → Ends rest → skipBlanks rest = ']' :: after →
    2 * (writeRow style level items rest).length + 1 < fuel →
    readItems fuel room shape (writeRow style level items rest) =
      if itemsNesting items ≤ room then some (items, after) else none
  | _, [], _, _, _, _, _, _, _, hne, _, _, _ => absurd rfl hne
  | level, item :: items, room, fuel + 1, shape, rest, after, hlegible, hcovers, _, hends, hrest,
      hfuel => by
      obtain ⟨hitem, hitems⟩ := hcovers.items
      obtain ⟨hfirst, hothers⟩ := legible_array_cons.mp hlegible
      rw [writeRow] at hfuel
      have hlength := length_le_write style level item (writeItems style level items rest)
      have hvalue := readValue_write style level item room hfirst hitem
        (ends_writeItems style level items hends) (show 2 * _ < fuel by omega)
      rw [readItems, writeRow, hvalue]
      simp only [itemsNesting, Nat.max_le, ite_and]
      by_cases hroom : item.nesting ≤ room
      · rw [if_pos hroom, if_pos hroom]
        cases items with
        | nil =>
            rw [if_pos (show itemsNesting [] ≤ room from Nat.zero_le room)]
            simp only [writeItems, hrest]
        | cons next items =>
            have hstart := length_le_newline style level (writeRow style level (next :: items) rest)
            rw [writeItems_cons] at hfuel hlength
            rw [List.length_cons] at hlength
            have hmore := readItems_write style level (next :: items) room hothers hitems
              (List.cons_ne_nil _ _) hends hrest (show 2 * _ + 1 < fuel by omega)
            have hcomma : isBlank ',' = false := rfl
            simp only [writeItems_cons, skipBlanks_cons _ hcomma,
              readItems_congr (skipBlanks_newline style level _), hmore]
            rw [apply_ite (Option.map _)]
            rfl
      · rw [if_neg hroom, if_neg hroom]

theorem readMembers_write (style : Style) : (level : Nat) → (members : List (String × Json)) →
    (room : Nat) → ∀ {fuel : Nat} {shape : Shape} {rest after : List Char},
    (Json.object members).Legible → shape.Covers (.object members) → members ≠ [] → Ends rest →
    skipBlanks rest = '}' :: after → 2 * (writeTable style level members rest).length + 1 < fuel →
    readMembers fuel room shape (writeTable style level members rest) =
      if membersNesting members ≤ room then some (members, after) else none
  | _, [], _, _, _, _, _, _, _, hne, _, _, _ => absurd rfl hne
  | level, (key, value) :: members, room, fuel + 1, shape, rest, after, hlegible, hcovers, _, hends,
      hrest, hfuel => by
      obtain ⟨⟨wanted, hwanted, hvalue⟩, hmembers⟩ := hcovers.members
      obtain ⟨hfirst, hothers⟩ := legible_object_cons.mp hlegible
      rw [writeTable] at hfuel
      have hlength := length_le_write style level value (writeMembers style level members rest)
      have hcolon := length_le_colon style
        (write style level value (writeMembers style level members rest))
      have hkey := length_le_writeString key
        (style.colon (write style level value (writeMembers style level members rest)))
      have hread := readValue_write style level value room hfirst hvalue
        (ends_writeMembers style level members hends) (show 2 * _ < fuel by omega)
      rw [writeTable, readMembers_member style _ hwanted, hread]
      simp only [membersNesting, Nat.max_le, ite_and]
      by_cases hroom : value.nesting ≤ room
      · rw [if_pos hroom, if_pos hroom]
        rcases members with _ | ⟨⟨nextKey, next⟩, members⟩
        · rw [if_pos (show membersNesting [] ≤ room from Nat.zero_le room)]
          simp only [writeMembers, hrest]
        · have hstart := length_le_newline style level
            (writeTable style level ((nextKey, next) :: members) rest)
          rw [writeMembers_cons] at hfuel hlength hcolon hkey
          rw [List.length_cons] at hlength
          have hmore := readMembers_write style level ((nextKey, next) :: members) room hothers
            hmembers (List.cons_ne_nil _ _) hends hrest (show 2 * _ + 1 < fuel by omega)
          have hcomma : isBlank ',' = false := rfl
          simp only [writeMembers_cons, skipBlanks_cons _ hcomma,
            readMembers_congr (skipBlanks_newline style level _), hmore]
          rw [apply_ite (Option.map _)]
          rfl
      · rw [if_neg hroom, if_neg hroom]

end

/-- **A written text is read back** unless its value nests too deeply. -/
theorem readShaped?_write (style : Style) {value : Json} {shape : Shape} (hlegible : value.Legible)
    (hcovers : shape.Covers value) :
    readShaped? shape (String.ofList (write style 0 value [])) =
      if value.nesting ≤ maxNesting then some value else none := by
  have hread := readValue_write style 0 value maxNesting hlegible hcovers ends_nil
    (show 2 * _ < 2 * (write style 0 value []).length + 2 by omega)
  rw [readShaped?, String.toList_ofList]
  by_cases hroom : value.nesting ≤ maxNesting
  · simp only [hread, if_pos hroom]
    rfl
  · simp only [hread, if_neg hroom]

end Json

end Provenance
