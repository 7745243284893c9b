import DeclLang.Diagnostics
import DeclLang.Proofs.Trees

/-!
# How identities are written

**Results.**
* `NodeId.text_inj`: different identities of 128 bits are written differently.
* `Diagnostics.warningsAbout`: the warnings about a node are those that begin with its identity.
  All identities are written with the same number of characters (`NodeId.length_text`), so that a
  warning is about one node only.
-/

namespace DeclLang

namespace NodeId

/-- Identities of 128 bits are below this. -/
def bound : NodeId :=
  Nat.pow 2 128

@[simp] theorem length_hexDigits (count n : Nat) : (hexDigits count n).length = count := by
  simp [hexDigits]

/-- The characters of a written identity. -/
theorem toList_text (id : NodeId) :
    (text id).toList =
      (hexDigits 32 id).take 8 ++ ('-' :: ((hexDigits 32 id).drop 8).take 4) ++
        ('-' :: ((hexDigits 32 id).drop 12).take 4) ++
        ('-' :: ((hexDigits 32 id).drop 16).take 4) ++
          ('-' :: ((hexDigits 32 id).drop 20).take 12) := by
  simp [text]

theorem length_text (id : NodeId) : (text id).toList.length = 36 := by
  simp [toList_text]

theorem hexDigit_inj : ∀ a < 16, ∀ b < 16, hexDigit a = hexDigit b → a = b := by
  decide

/-- Equally written identities have the same digits. -/
theorem hexDigits_eq_of_text_eq {a b : NodeId} (h : text a = text b) :
    hexDigits 32 a = hexDigits 32 b := by
  have written := congrArg String.toList h
  rw [toList_text, toList_text] at written
  obtain ⟨written, last⟩ := List.append_inj' written (by simp)
  obtain ⟨written, fourth⟩ := List.append_inj' written (by simp)
  obtain ⟨written, third⟩ := List.append_inj' written (by simp)
  obtain ⟨first, second⟩ := List.append_inj' written (by simp)
  have joined {n m : Nat} {left right : List Char}
      (same : (left.drop n).take m = (right.drop n).take m)
      (rest : left.drop (n + m) = right.drop (n + m)) : left.drop n = right.drop n := by
    rw [← List.take_append_drop m (left.drop n), ← List.take_append_drop m (right.drop n),
      List.drop_drop, List.drop_drop, same, rest]
  have ends (id : NodeId) : (hexDigits 32 id).drop 32 = [] := by
    simp [List.drop_eq_nil_iff]
  exact joined (n := 0) (m := 8) first
    (joined (m := 4) (List.tail_eq_of_cons_eq second)
    (joined (m := 4) (List.tail_eq_of_cons_eq third)
    (joined (m := 4) (List.tail_eq_of_cons_eq fourth)
    (joined (m := 12) (List.tail_eq_of_cons_eq last) ((ends a).trans (ends b).symm)))))

/-- Identities of 128 bits with the same digits are the same. -/
theorem eq_of_hexDigits_eq {a b : NodeId} (ha : a < bound) (hb : b < bound)
    (h : hexDigits 32 a = hexDigits 32 b) : a = b := by
  have digit (place : Nat) (inside : place < 32) :
      (a >>> (4 * place)) % 2 ^ 4 = (b >>> (4 * place)) % 2 ^ 4 := by
    refine hexDigit_inj _ (Nat.mod_lt _ (by decide)) _ (Nat.mod_lt _ (by decide)) ?_
    unfold hexDigits at h
    exact List.map_inj_left.1 h place (by simpa using inside)
  refine Nat.eq_of_testBit_eq fun i => ?_
  by_cases inside : i < 128
  · have same := congrArg (fun n => n.testBit (i % 4)) (digit (i / 4) (by omega))
    simpa only [Nat.testBit_mod_two_pow, Nat.mod_lt i (by decide : 4 > 0), decide_true,
      Bool.true_and, Nat.testBit_shiftRight, Nat.div_add_mod] using same
  · have large : bound ≤ 2 ^ i := Nat.pow_le_pow_right (by decide) (by omega)
    rw [Nat.testBit_lt_two_pow (Nat.lt_of_lt_of_le ha large),
      Nat.testBit_lt_two_pow (Nat.lt_of_lt_of_le hb large)]

/-- Different identities of 128 bits are written differently. -/
theorem text_inj {a b : NodeId} (ha : a < bound) (hb : b < bound) (h : text a = text b) :
    a = b :=
  eq_of_hexDigits_eq ha hb (hexDigits_eq_of_text_eq h)

end NodeId

/-- Identities in the tree that are written alike are the same. -/
def Node.Legible (root : Node) : Prop :=
  ∀ a ∈ root.identities, ∀ b ∈ root.identities, NodeId.text a = NodeId.text b → a = b

theorem Node.legible_of_lt {root : Node} (small : ∀ id ∈ root.identities, id < NodeId.bound) :
    root.Legible :=
  fun a ha b hb => NodeId.text_inj (small a ha) (small b hb)

namespace Diagnostics

/-- The warnings about a node, which begin with its identity. -/
def warningsAbout (diagnostics : Diagnostics) (id : NodeId) : List String :=
  (diagnostics.messages .warning).filter fun message =>
    (NodeId.text id).toList.isPrefixOf message.toList

theorem warningsAbout_warn (diagnostics : Diagnostics) (id about : NodeId) (rest : String) :
    (diagnostics.warn (NodeId.text about ++ rest)).warningsAbout id =
      diagnostics.warningsAbout id ++
        if NodeId.text about = NodeId.text id then [NodeId.text about ++ rest] else [] := by
  have begins : (NodeId.text id).toList.isPrefixOf (NodeId.text about ++ rest).toList =
      decide (NodeId.text about = NodeId.text id) := by
    rw [Bool.eq_iff_iff, List.isPrefixOf_iff_prefix, decide_eq_true_iff, String.toList_append]
    constructor
    · rintro ⟨tail, same⟩
      obtain ⟨same, -⟩ := List.append_inj same
        ((NodeId.length_text id).trans (NodeId.length_text about).symm)
      exact (String.toList_injective same).symm
    · intro same
      rw [same]
      exact List.prefix_append _ _
  have added (message : String) : (diagnostics.warn message).messages .warning =
      diagnostics.messages .warning ++ [message] := by
    rw [messages, warn, toList_report, List.filter_append, List.map_append]
    rfl
  rw [warningsAbout, added, List.filter_append, List.filter_cons, begins, List.filter_nil]
  simp only [decide_eq_true_eq]
  rfl

end Diagnostics

end DeclLang
