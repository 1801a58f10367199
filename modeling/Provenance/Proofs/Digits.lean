import Mathlib.Algebra.Group.Nat.Defs
import Provenance.Text.Digits

/-!
# Written digits are read back

`Text.Spells text ds` says that a text consists of the decimal digits `ds`.  What the two ways of
writing a number give spells digits that stand for this number, and a reader that takes digits off a
text takes exactly those that are spelled, if nothing that follows continues them.

* `spells_fixedDigits` and `spells_toDigits`: what is written spells the number.
* `takeDigits_of_spells` and `digits_of_spells`: what is spelled is taken off.
-/

namespace Provenance

namespace Text

/-- The characters of a text are these decimal digits. -/
def Spells (text : List Char) (ds : List Nat) : Prop :=
  text.map digit? = ds.map some

/-- A text does not go on with a decimal digit. -/
def Stops (rest : List Char) : Prop :=
  ∀ c ∈ rest.head?, digit? c = none

theorem stops_nil : Stops [] :=
  fun _ h => nomatch h

theorem stops_cons {c : Char} (rest : List Char) (h : digit? c = none) : Stops (c :: rest) := by
  intro d hd
  cases hd
  exact h

/-! ### Characters -/

theorem digit?_digitChar {n : Nat} (h : n < 10) : digit? (Nat.digitChar n) = some n := by
  have : ∀ k < 10, digit? (Nat.digitChar k) = some k := by decide
  exact this n h

theorem hexDigit?_digitChar {n : Nat} (h : n < 16) : hexDigit? (Nat.digitChar n) = some n := by
  have : ∀ k < 16, hexDigit? (Nat.digitChar k) = some k := by decide
  exact this n h

/-! ### What digits stand for -/

theorem valueInBase_append (base : Nat) (ds : List Nat) (d : Nat) :
    valueInBase base (ds ++ [d]) = base * valueInBase base ds + d := by
  rw [valueInBase, List.foldl_append]
  rfl

theorem value_append (ds : List Nat) (d : Nat) : value (ds ++ [d]) = 10 * value ds + d :=
  valueInBase_append 10 ds d

/-! ### Spelling -/

namespace Spells

variable {text more : List Char} {ds es : List Nat}

theorem append (h : Spells text ds) (h' : Spells more es) : Spells (text ++ more) (ds ++ es) := by
  unfold Spells at *
  rw [List.map_append, List.map_append, h, h']

theorem length_eq (h : Spells text ds) : text.length = ds.length := by
  have := congrArg List.length h
  rwa [List.length_map, List.length_map] at this

/-- What spells a digit starts with it. -/
theorem cons {d : Nat} (h : Spells text (d :: ds)) :
    ∃ c rest, text = c :: rest ∧ digit? c = some d ∧ Spells rest ds := by
  cases text with
  | nil => cases h
  | cons c rest => exact ⟨c, rest, rfl, List.head_eq_of_cons_eq h, List.tail_eq_of_cons_eq h⟩

end Spells

theorem spells_singleton {d : Nat} (h : d < 10) : Spells [Nat.digitChar d] [d] := by
  unfold Spells
  rw [List.map_singleton, digit?_digitChar h]
  rfl

theorem spells_fixedDigits (places n : Nat) :
    ∃ ds, Spells (fixedDigits places n) ds ∧ ds.length = places ∧ value ds = n % 10 ^ places := by
  induction places generalizing n with
  | zero => exact ⟨[], rfl, rfl, by rw [Nat.pow_zero, Nat.mod_one]; rfl⟩
  | succ places ih =>
      obtain ⟨ds, hspells, hlength, hvalue⟩ := ih (n / 10)
      refine ⟨ds ++ [n % 10], hspells.append (spells_singleton (Nat.mod_lt _ (by decide))), ?_, ?_⟩
      · rw [List.length_append, hlength]
        rfl
      · rw [value_append, hvalue, Nat.pow_succ', Nat.mod_mul, Nat.add_comm]

theorem spells_toDigits (n : Nat) :
    ∃ ds, Spells (Nat.toDigits 10 n) ds ∧ value ds = n ∧ ds ≠ [] ∧ (ds.head? = some 0 → ds = [0]) := by
  induction n using Nat.strongRecOn with
  | ind n ih =>
      rw [Nat.toDigits_eq_if (by decide)]
      split
      · rename_i hn
        refine ⟨[n], spells_singleton hn, ?_, List.cons_ne_nil _ _, fun hzero => ?_⟩
        · rw [value, valueInBase, List.foldl_cons, Nat.mul_zero, Nat.zero_add]
          rfl
        · rw [Option.some.inj hzero]
      · rename_i hn
        obtain ⟨ds, hspells, hvalue, hne, hzero⟩ := ih (n / 10) (by omega)
        refine ⟨ds ++ [n % 10], hspells.append (spells_singleton (Nat.mod_lt _ (by decide))), ?_, ?_,
          fun hhead => ?_⟩
        · rw [value_append, hvalue]
          omega
        · exact List.append_ne_nil_of_left_ne_nil hne _
        · -- a zero in front would be the only digit of what is at least one
          have hfirst : ds.head? = some 0 := by
            cases ds with
            | nil => exact absurd rfl hne
            | cons d ds => exact hhead
          rw [hzero hfirst] at hvalue
          have : n / 10 = 0 := hvalue.symm
          omega

/-! ### Taking digits off -/

/-- What is spelled is taken off, up to the digits that are wanted or those that there are. -/
theorem takeDigits_of_spells {most : Nat} {text : List Char} {ds : List Nat} (rest : List Char)
    (h : Spells text ds) (hle : ds.length ≤ most) (hstop : ds.length = most ∨ Stops rest) :
    takeDigits most (text ++ rest) = (ds, rest) := by
  induction ds generalizing most text with
  | nil =>
      cases List.map_eq_nil_iff.mp h
      cases most with
      | zero => rfl
      | succ most =>
          have hstops := hstop.resolve_left (Nat.succ_ne_zero most).symm
          cases rest with
          | nil => rfl
          | cons c rest => rw [List.nil_append, takeDigits, hstops c rfl]
  | cons d ds ih =>
      obtain ⟨c, text, rfl, hc, htext⟩ := h.cons
      cases most with
      | zero => cases hle
      | succ most =>
          have hrest := ih htext (Nat.le_of_succ_le_succ hle) (hstop.imp_left Nat.succ.inj)
          rw [List.cons_append, takeDigits, hc]
          simp only [hrest]

/-- All digits in front are taken off. -/
theorem digits_of_spells {text rest : List Char} {ds : List Nat} (h : Spells text ds)
    (hstop : Stops rest) : digits (text ++ rest) = (ds, rest) := by
  refine takeDigits_of_spells rest h ?_ (.inr hstop)
  rw [List.length_append, h.length_eq]
  exact Nat.le_add_right _ _

theorem digits_of_stops {rest : List Char} (hstop : Stops rest) : digits rest = ([], rest) :=
  digits_of_spells (show Spells [] [] from rfl) hstop

theorem digits?_of_spells {text rest : List Char} {ds : List Nat} (h : Spells text ds)
    (hne : ds ≠ []) (hstop : Stops rest) : digits? (text ++ rest) = some (ds, rest) := by
  rw [digits?, digits_of_spells h hstop]
  cases ds with
  | nil => exact absurd rfl hne
  | cons d ds => rfl

end Text

end Provenance
