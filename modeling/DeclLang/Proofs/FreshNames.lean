import Mathlib.Data.Nat.Digits.Lemmas
import DeclLang.Types.FreshVariable

/-!
# The names of fresh variables

The variables of a supply are numbered from zero on.  The name of each is the stem followed by the
numeral of its number.

**Input.**  Any stem, and any number of names taken from the supply.

**Argument.**  The digits of a number are those of positional notation, the most significant first
(`Numeral36.digits_eq`).  Reading them back undoes writing them, so different numbers have different
numerals.

**Results.**  `VariableSupply.names_apart`: the names taken are pairwise different, and the numeral
in each is the only text that spells its number in base 36.
-/

namespace DeclLang

namespace Numeral36

/-- The digits, in the order of their values. -/
def alphabet : List Char :=
  "0123456789abcdefghijklmnopqrstuvwxyz".toList

/-- The text spells the number: its characters are digits, the most significant first and never a
leading zero, except that zero is a single digit. -/
def Spells (text : String) (n : Nat) : Prop :=
  ∃ places : List Nat, (∀ digit ∈ places, digit < 36) ∧
    (places = [0] ∨ ∃ leading rest, places = leading :: rest ∧ leading ≠ 0) ∧
    Nat.ofDigits 36 places.reverse = n ∧
    text.toList.map some = places.map fun digit => alphabet[digit]?

/-- Reads digits behind others that stand for `sum`. -/
def readFrom (sum : Nat) (text : List Char) : Option Nat :=
  text.foldlM (fun sum digit => (alphabet.idxOf? digit).map (sum * 36 + ·)) sum

/-- Reads a text as a number, if it consists of digits. -/
def read? (text : String) : Option Nat :=
  if text.isEmpty then none else readFrom 0 text.toList

/-- Digits are written in the alphabet. -/
theorem alphabet_digitChar : ∀ digit < 36, alphabet[digit]? = some (digitChar digit) := by
  decide

theorem idxOf?_digitChar : ∀ digit < 36, alphabet.idxOf? (digitChar digit) = some digit := by
  decide

/-- The digits of a number are those of positional notation. -/
theorem digits_eq (n : Nat) : digits n = if n = 0 then [0] else (Nat.digits 36 n).reverse := by
  fun_induction digits n with
  | case1 n small =>
    by_cases zero : n = 0
    · rw [if_pos zero, zero]
    · rw [if_neg zero, Nat.digits_of_lt 36 n zero small]
      rfl
  | case2 n large ih =>
    have positive : n / 36 ≠ 0 := by omega
    rw [ih, if_neg positive, if_neg (by omega),
      Nat.digits_def' (b := 36) (by omega) (by omega : 0 < n), List.reverse_cons]

theorem digits_of_ne_zero {n : Nat} (positive : n ≠ 0) :
    digits n = (Nat.digits 36 n).reverse := by
  rw [digits_eq, if_neg positive]

theorem lt_of_mem_digits {n digit : Nat} (mem : digit ∈ digits n) : digit < 36 := by
  rw [digits_eq] at mem
  split at mem
  · rw [List.mem_singleton.1 mem]
    decide
  · exact Nat.digits_lt_base (by decide) (List.mem_reverse.1 mem)

/-- The most significant digit of a number is no zero, unless it is the only one. -/
theorem digits_leading (n : Nat) :
    digits n = [0] ∨ ∃ leading rest, digits n = leading :: rest ∧ leading ≠ 0 := by
  by_cases zero : n = 0
  · rw [digits_eq, if_pos zero]
    exact .inl rfl
  · have nonempty : Nat.digits 36 n ≠ [] := Nat.digits_ne_nil_iff_ne_zero.2 zero
    have split : digits n = (Nat.digits 36 n).getLast nonempty ::
        (Nat.digits 36 n).dropLast.reverse := by
      rw [digits_of_ne_zero zero, ← List.reverse_concat,
        List.dropLast_append_getLast nonempty]
    exact .inr ⟨_, _, split, Nat.getLast_digit_ne_zero 36 zero⟩

theorem ofDigits_digits (n : Nat) : Nat.ofDigits 36 (digits n).reverse = n := by
  rw [digits_eq]
  split
  · rename_i zero
    rw [zero]
    rfl
  · rw [List.reverse_reverse, Nat.ofDigits_digits]

/-- The numeral of a number spells it. -/
theorem spells_ofNat (n : Nat) : Spells (ofNat n) n := by
  refine ⟨digits n, fun _ => lt_of_mem_digits, digits_leading n, ofDigits_digits n, ?_⟩
  rw [ofNat, String.toList_ofList, List.map_map]
  refine List.map_congr_left fun digit mem => ?_
  exact (alphabet_digitChar digit (lt_of_mem_digits mem)).symm

/-- Only the numeral of a number spells it. -/
theorem Spells.eq_ofNat {text : String} {n : Nat} (spells : Spells text n) : text = ofNat n := by
  obtain ⟨places, small, leading, value, written⟩ := spells
  have same : places = digits n := by
    rcases leading with rfl | ⟨first, rest, rfl, nonzero⟩
    · have zero : n = 0 := value.symm
      rw [digits_eq, if_pos zero]
    · have whole : Nat.digits 36 n = (first :: rest).reverse := by
        rw [← value]
        refine Nat.digits_ofDigits 36 (by decide) _ ?_ ?_
        · exact fun digit mem => small digit (List.mem_reverse.1 mem)
        · intro nonempty
          rw [List.getLast_reverse]
          exact nonzero
      have positive : n ≠ 0 := by
        rintro rfl
        simp at whole
      rw [digits_of_ne_zero positive, whole, List.reverse_reverse]
  have characters : text.toList.map some = ((digits n).map digitChar).map some := by
    rw [written, same, List.map_map]
    exact List.map_congr_left fun digit mem => alphabet_digitChar digit (lt_of_mem_digits mem)
  rw [ofNat, ← List.map_injective_iff.2 (Option.some_injective _) characters, String.ofList_toList]

theorem readFrom_append (sum : Nat) (front back : List Char) :
    readFrom sum (front ++ back) = (readFrom sum front).bind fun sum => readFrom sum back :=
  List.foldlM_append

/-- Reading undoes writing, place by place. -/
theorem readFrom_digits (n : Nat) : readFrom 0 ((digits n).map digitChar) = some n := by
  fun_induction digits n with
  | case1 n small => simp [readFrom, idxOf?_digitChar n small]
  | case2 n large ih =>
    have last := idxOf?_digitChar (n % 36) (Nat.mod_lt _ (by decide))
    rw [List.map_append, readFrom_append, ih, Option.bind_some, List.map_singleton]
    simp only [readFrom, List.foldlM_cons, last, Option.map_some, List.foldlM_nil]
    change some (n / 36 * 36 + n % 36) = some n
    rw [Nat.div_add_mod']

theorem read?_ofNat (n : Nat) : read? (ofNat n) = some n := by
  have nonempty : (ofNat n).isEmpty = false := by
    rw [← Bool.not_eq_true, String.isEmpty_iff]
    intro empty
    have none : ((digits n).map digitChar) = [] := by
      rw [← String.toList_ofList (l := (digits n).map digitChar)]
      exact congrArg String.toList empty
    rcases digits_leading n with single | ⟨leading, rest, split, -⟩
    · rw [single] at none
      cases none
    · rw [split] at none
      cases none
  rw [read?, nonempty]
  exact (congrArg (readFrom 0) String.toList_ofList).trans (readFrom_digits n)

/-- Different numbers have different numerals. -/
theorem ofNat_inj {m n : Nat} (h : ofNat m = ofNat n) : m = n := by
  have same := congrArg read? h
  rwa [read?_ofNat, read?_ofNat, Option.some.injEq] at same

end Numeral36

namespace VariableSupply

/-- The names that are taken are numbered onwards. -/
theorem takeNames_fst (supply : VariableSupply) (count : Nat) :
    (supply.takeNames count).1 =
      (List.range' supply.next count).map fun n => supply.stem ++ Numeral36.ofNat n := by
  induction count generalizing supply with
  | zero => rfl
  | succ count ih =>
    rw [List.range'_succ, List.map_cons]
    exact congrArg _ (ih supply.takeName.2)

@[simp] theorem length_takeNames (supply : VariableSupply) (count : Nat) :
    (supply.takeNames count).1.length = count := by
  rw [takeNames_fst, List.length_map, List.length_range']

/-- Names that are taken together are different. -/
theorem nodup_takeNames (supply : VariableSupply) (count : Nat) :
    (supply.takeNames count).1.Nodup := by
  rw [takeNames_fst]
  refine (List.nodup_range' ..).map fun m n same => ?_
  exact Numeral36.ofNat_inj ((String.append_right_inj _).1 same)

/-- Whatever the stem is and however many names are taken, they are pairwise different.  The `n`-th
is the stem followed by a text that spells `n` in base 36, which no other text does, and which is
read back as `n`. -/
theorem names_apart (stem : String) (count : Nat) :
    let names := (({ stem } : VariableSupply).takeNames count).1
    names.Nodup ∧
    names = (List.range count).map (fun n => stem ++ Numeral36.ofNat n) ∧
    ∀ n, (∀ text, Numeral36.Spells text n ↔ text = Numeral36.ofNat n) ∧
      Numeral36.read? (Numeral36.ofNat n) = some n := by
  refine ⟨nodup_takeNames _ count, ?_, fun n => ⟨fun text => ⟨Numeral36.Spells.eq_ofNat, ?_⟩,
    Numeral36.read?_ofNat n⟩⟩
  · rw [takeNames_fst, List.range_eq_range']
  · rintro rfl
    exact Numeral36.spells_ofNat n

end VariableSupply

end DeclLang
