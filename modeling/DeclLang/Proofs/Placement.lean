import Mathlib.Data.List.Perm.Basic
import Mathlib.Data.List.Forall2
import DeclLang.Proofs.Alignment

/-!
# Where arguments go

**Input.**  Slots, and arguments with and without labels.

**Rule.**  Arguments are looked at from left to right.  `Alignment.Goes` says which empty slot an
argument goes to, `Alignment.Refused` why it has none, and `Alignment.Ends` how this ends.  The rule
knows no cursor: an argument without a label is compared with all slots.

**Results.**
* `align_ends`: alignment ends as the rule says, and `Alignment.Ends.unique`: the rule leaves no
  choice.
* `Alignment.Ends.advanced`: a labeled argument may come earlier.
* `aligned_as_ruled`: the rule, what a success means for the slots, and how far the order of the
  arguments matters.
* `behindUnlabeled_refused`: a labeled argument that comes later than before can find its slot taken.
-/

namespace DeclLang

namespace Alignment

variable {α : Type} {slots : List Slot} {total : Nat}

/-- The first slot of a name. -/
structure FirstNamed (slots : List Slot) (name : String) (position : Nat) : Prop where
  named : ∃ slot, slots[position]? = some slot ∧ slot.name = name
  first : ∀ earlier < position, ∀ slot, slots[earlier]? = some slot → slot.name ≠ name

/-- An argument goes to an empty slot: with a label to the first slot of that name, without a label
to the first slot that is empty. -/
inductive Goes (slots : List Slot) (filled : List (Option α)) : Option String → Nat → Prop
  | labeled {label : String} {position : Nat} (named : FirstNamed slots label position)
      (empty : filled[position]? = some none) : Goes slots filled (some label) position
  | unlabeled {position : Nat} (empty : filled[position]? = some none)
      (first : ∀ earlier < position, filled[earlier]? ≠ some none) :
      Goes slots filled none position

/-- An argument that goes nowhere is refused: no slot has the name of its label, the first slot of
that name is taken, or no slot is empty. -/
inductive Refused (slots : List Slot) (total : Nat) (filled : List (Option α)) :
    Option String → AlignmentError → Prop
  | unknown {label : String} (absent : ∀ slot ∈ slots, slot.name ≠ label) :
      Refused slots total filled (some label) (.unknownLabel label)
  | taken {label : String} {position : Nat} (named : FirstNamed slots label position)
      (occupied : filled[position]? ≠ some none) :
      Refused slots total filled (some label) (.duplicateArgument label)
  | full (occupied : none ∉ filled) :
      Refused slots total filled none (.tooManyArguments slots.length total)

/-- How it ends when arguments are put into slots from left to right: the first one that is refused
decides. -/
inductive Ends (slots : List Slot) (total : Nat) :
    List (Option α) → List (Option String × α) →
      Except AlignmentError (List (Option α)) → Prop
  | done (filled : List (Option α)) : Ends slots total filled [] (.ok filled)
  | placed {filled : List (Option α)} {label? : Option String} {value : α}
      {arguments : List (Option String × α)} {position : Nat}
      {outcome : Except AlignmentError (List (Option α))} (goes : Goes slots filled label? position)
      (rest : Ends slots total (filled.set position (some value)) arguments outcome) :
      Ends slots total filled ((label?, value) :: arguments) outcome
  | refused {filled : List (Option α)} {label? : Option String} {error : AlignmentError}
      (refused : Refused slots total filled label? error) (value : α)
      (arguments : List (Option String × α)) :
      Ends slots total filled ((label?, value) :: arguments) (.error error)

section Unique

variable {filled : List (Option α)} {label? : Option String} {position : Nat}

theorem FirstNamed.unique {name : String} {other : Nat} (h : FirstNamed slots name position)
    (h' : FirstNamed slots name other) : position = other := by
  obtain ⟨slot, found, named⟩ := h.named
  obtain ⟨slot', found', named'⟩ := h'.named
  rcases Nat.lt_trichotomy position other with less | same | more
  · exact absurd named (h'.first position less slot found)
  · exact same
  · exact absurd named' (h.first other more slot' found')

theorem Goes.empty (h : Goes slots filled label? position) : filled[position]? = some none := by
  cases h with
  | labeled _ empty => exact empty
  | unlabeled empty _ => exact empty

theorem Goes.unique {other : Nat} (h : Goes slots filled label? position)
    (h' : Goes slots filled label? other) : position = other := by
  cases h with
  | labeled named _ =>
    cases h' with
    | labeled named' _ => exact named.unique named'
  | unlabeled empty first =>
    cases h' with
    | unlabeled empty' first' =>
      rcases Nat.lt_trichotomy position other with less | same | more
      · exact absurd empty (first' position less)
      · exact same
      · exact absurd empty' (first other more)

/-- What goes somewhere is not refused. -/
theorem Goes.not_refused {error : AlignmentError} (h : Goes slots filled label? position) :
    ¬Refused slots total filled label? error := by
  intro refused
  cases refused with
  | unknown absent =>
    cases h with
    | labeled named _ =>
      obtain ⟨slot, found, same⟩ := named.named
      exact absent slot (List.mem_of_getElem? found) same
  | taken named' occupied =>
    cases h with
    | labeled named empty => exact occupied (named.unique named' ▸ empty)
  | full occupied => exact occupied (List.mem_of_getElem? h.empty)

theorem Refused.unique {error error' : AlignmentError}
    (h : Refused slots total filled label? error)
    (h' : Refused slots total filled label? error') : error = error' := by
  have apart {name : String} {position : Nat} (absent : ∀ slot ∈ slots, slot.name ≠ name)
      (named : FirstNamed slots name position) : False := by
    obtain ⟨slot, found, same⟩ := named.named
    exact absent slot (List.mem_of_getElem? found) same
  cases h with
  | unknown absent =>
    cases h' with
    | unknown => rfl
    | taken named => exact (apart absent named).elim
  | taken named =>
    cases h' with
    | unknown absent => exact (apart absent named).elim
    | taken => rfl
  | full =>
    cases h' with
    | full => rfl

/-- The rule leaves no choice. -/
theorem Ends.unique {arguments : List (Option String × α)}
    {outcome outcome' : Except AlignmentError (List (Option α))}
    (h : Ends slots total filled arguments outcome)
    (h' : Ends slots total filled arguments outcome') : outcome = outcome' := by
  induction h with
  | done =>
    cases h'
    rfl
  | placed goes _ ih =>
    cases h' with
    | placed goes' rest' =>
      cases goes.unique goes'
      exact ih rest'
    | refused refused => exact absurd refused goes.not_refused
  | refused refused value arguments =>
    cases h' with
    | placed goes' _ => exact absurd refused goes'.not_refused
    | refused refused' => rw [refused.unique refused']

end Unique

section Cursor

/-- Behind the cursor no slot is empty. -/
structure Behind (slots : List Slot) (state : State α) : Prop where
  length : state.filled.length = slots.length
  occupied : ∀ earlier < state.cursor, state.filled[earlier]? ≠ some none

/-- What a list starts with before its first empty entry. -/
theorem takeWhile_isSome_stops (entries : List (Option α)) :
    (∀ earlier < (entries.takeWhile Option.isSome).length, entries[earlier]? ≠ some none) ∧
      ((entries.takeWhile Option.isSome).length < entries.length →
        entries[(entries.takeWhile Option.isSome).length]? = some none) := by
  induction entries with
  | nil => simp
  | cons entry entries ih =>
    cases entry with
    | none => simp
    | some value =>
      obtain ⟨occupied, stops⟩ := ih
      rw [List.takeWhile_cons_of_pos rfl, List.length_cons, List.length_cons]
      refine ⟨fun earlier less => ?_, fun more => ?_⟩
      · cases earlier with
        | zero => simp
        | succ earlier =>
          rw [List.getElem?_cons_succ]
          exact occupied earlier (Nat.lt_of_succ_lt_succ less)
      · rw [List.getElem?_cons_succ]
        exact stops (Nat.lt_of_succ_lt_succ more)

/-- The cursor stops at the first slot that is empty. -/
theorem advance_stops {filled : List (Option α)} {cursor : Nat}
    (occupied : ∀ earlier < cursor, filled[earlier]? ≠ some none) :
    (∀ earlier < advance filled cursor, filled[earlier]? ≠ some none) ∧
      (advance filled cursor < filled.length → filled[advance filled cursor]? = some none) := by
  obtain ⟨passed, stops⟩ := takeWhile_isSome_stops (filled.drop cursor)
  unfold advance
  constructor
  · intro earlier less
    by_cases behind : earlier < cursor
    · exact occupied earlier behind
    · have step := passed (earlier - cursor) (by omega)
      rwa [List.getElem?_drop, Nat.add_sub_cancel' (Nat.le_of_not_lt behind)] at step
  · intro more
    rw [← List.getElem?_drop]
    refine stops ?_
    rw [List.length_drop]
    omega

/-- The first slot of a name is found. -/
theorem firstNamed_of_findIdx? {label : String} {position : Nat}
    (h : slots.findIdx? (fun slot => slot.name == label) = some position) :
    FirstNamed slots label position := by
  rw [List.findIdx?_eq_some_iff_getElem] at h
  obtain ⟨bound, same, before⟩ := h
  refine ⟨⟨slots[position], List.getElem?_eq_getElem bound, by simpa using same⟩, ?_⟩
  intro earlier less slot found
  obtain ⟨inside, rfl⟩ := List.getElem?_eq_some_iff.1 found
  simpa using before earlier less

theorem absent_of_findIdx? {label : String}
    (h : slots.findIdx? (fun slot => slot.name == label) = none) :
    ∀ slot ∈ slots, slot.name ≠ label := by
  intro slot mem same
  have other := List.findIdx?_eq_none_iff.1 h slot mem
  rw [same, beq_self_eq_true] at other
  cases other

/-- An argument whose position is known is placed there if the slot is empty. -/
theorem place_eq (state : State α) (argument : Option String × α) :
    place slots total state argument =
      (position slots total argument.1 state).bind fun location =>
        if (state.filled[location.1]?.join).isSome then
          .error (.duplicateArgument ((slots[location.1]?.map Slot.name).getD ""))
        else .ok { filled := state.filled.set location.1 (some argument.2), cursor := location.2 } :=
  rfl

theorem occupied_iff {filled : List (Option α)} {position : Nat} (h : position < filled.length) :
    (filled[position]?.join).isSome = true ↔ filled[position]? ≠ some none := by
  rw [List.getElem?_eq_getElem h]
  cases filled[position] <;> simp

/-- An argument with a label is placed or refused by the rule. -/
theorem place_labeled {state : State α} (behind : Behind slots state) (label : String) (value : α) :
    (∃ placed, place slots total state (some label, value) = .ok placed ∧ Behind slots placed ∧
      ∃ position, Goes slots state.filled (some label) position ∧
        placed.filled = state.filled.set position (some value)) ∨
    ∃ error, place slots total state (some label, value) = .error error ∧
      Refused slots total state.filled (some label) error := by
  rw [place_eq]
  unfold position
  dsimp only
  cases located : slots.findIdx? (fun slot => slot.name == label) with
  | none => exact .inr ⟨_, rfl, .unknown (absent_of_findIdx? located)⟩
  | some position =>
    have named := firstNamed_of_findIdx? located
    obtain ⟨slot, found, same⟩ := named.named
    have bound : position < state.filled.length := by
      rw [behind.length]
      exact (List.getElem?_eq_some_iff.1 found).choose
    dsimp only [Except.bind]
    by_cases taken : (state.filled[position]?.join).isSome
    · rw [if_pos taken, found, Option.map_some, Option.getD_some, same]
      exact .inr ⟨_, rfl, .taken named ((occupied_iff bound).1 taken)⟩
    · rw [if_neg taken]
      have empty : state.filled[position]? = some none := by
        rw [occupied_iff bound, not_not] at taken
        exact taken
      refine .inl ⟨_, rfl, ⟨List.length_set.trans behind.length, ?_⟩, _, .labeled named empty, rfl⟩
      intro earlier less
      rw [List.getElem?_set]
      split
      · simp
      · exact behind.occupied earlier less

/-- An argument without a label is placed or refused by the rule. -/
theorem place_unlabeled {state : State α} (behind : Behind slots state) (value : α) :
    (∃ placed, place slots total state (none, value) = .ok placed ∧ Behind slots placed ∧
      ∃ position, Goes slots state.filled none position ∧
        placed.filled = state.filled.set position (some value)) ∨
    ∃ error, place slots total state (none, value) = .error error ∧
      Refused slots total state.filled none error := by
  obtain ⟨occupied, stops⟩ := advance_stops behind.occupied
  rw [behind.length] at stops
  rw [place_eq]
  unfold position
  dsimp only
  generalize advance state.filled state.cursor = cursor at occupied stops
  by_cases inside : cursor < slots.length
  · have empty := stops inside
    rw [if_pos inside]
    dsimp only [Except.bind]
    rw [empty, Option.join_some, if_neg (by simp)]
    refine .inl ⟨_, rfl, ⟨List.length_set.trans behind.length, ?_⟩, _, .unlabeled empty occupied,
      rfl⟩
    intro earlier less
    rw [List.getElem?_set_ne (Nat.ne_of_gt less)]
    exact occupied earlier less
  · rw [if_neg inside]
    refine .inr ⟨_, rfl, .full fun mem => ?_⟩
    obtain ⟨position, found⟩ := List.getElem?_of_mem mem
    have bound := (List.getElem?_eq_some_iff.1 found).choose
    rw [behind.length] at bound
    exact occupied position (by omega) found

/-- Arguments are placed by the rule, one after the other. -/
theorem foldlM_ends (total : Nat) {state : State α} (behind : Behind slots state)
    (arguments : List (Option String × α)) :
    Ends slots total state.filled arguments
      ((arguments.foldlM (place slots total) state).map State.filled) := by
  induction arguments generalizing state with
  | nil => exact .done _
  | cons argument arguments ih =>
    obtain ⟨label?, value⟩ := argument
    have step : (∃ placed, place slots total state (label?, value) = .ok placed ∧
        Behind slots placed ∧ ∃ position, Goes slots state.filled label? position ∧
          placed.filled = state.filled.set position (some value)) ∨
        ∃ error, place slots total state (label?, value) = .error error ∧
          Refused slots total state.filled label? error := by
      cases label? with
      | none => exact place_unlabeled behind value
      | some label => exact place_labeled behind label value
    rw [List.foldlM_cons]
    rcases step with ⟨placed, ok, next, position, goes, same⟩ | ⟨error, failed, refused⟩
    · rw [ok]
      exact .placed goes (same ▸ ih next)
    · rw [failed]
      exact .refused refused value arguments

end Cursor

section Success

variable {filled final : List (Option α)} {arguments other : List (Option String × α)}

theorem Ends.length_eq (h : Ends slots total filled arguments (.ok final)) :
    final.length = filled.length := by
  generalize ended : Except.ok final = outcome at h
  induction h with
  | done =>
    cases ended
    rfl
  | placed _ _ ih => rw [ih ended, List.length_set]
  | refused => cases ended

/-- Every argument sits in a slot of its own that was empty, and nothing else changes. -/
theorem Ends.placement (h : Ends slots total filled arguments (.ok final)) :
    ∃ positions : List Nat, positions.Nodup ∧
      List.Forall₂ (fun argument position => final[position]? = some (some argument.2)) arguments
        positions ∧
      (∀ position ∈ positions, filled[position]? = some none) ∧
      ∀ position ∉ positions, final[position]? = filled[position]? := by
  generalize ended : Except.ok final = outcome at h
  induction h with
  | done =>
    cases ended
    exact ⟨[], List.nodup_nil, .nil, nofun, fun _ _ => rfl⟩
  | @placed filled label? value arguments position outcome goes rest ih =>
    obtain ⟨positions, nodup, sits, empty, others⟩ := ih ended
    have own : (filled.set position (some value))[position]? = some (some value) := by
      rw [List.getElem?_set_self (List.getElem?_eq_some_iff.1 goes.empty).choose]
    have fresh : position ∉ positions := by
      intro mem
      rw [empty position mem] at own
      cases own
    refine ⟨position :: positions, List.nodup_cons.2 ⟨fresh, nodup⟩, .cons ?_ sits, ?_, ?_⟩
    · rw [others position fresh, own]
    · intro place mem
      rcases List.mem_cons.1 mem with rfl | mem
      · exact goes.empty
      · have before := empty place mem
        have different : position ≠ place := fun same => fresh (same ▸ mem)
        rwa [List.getElem?_set_ne different] at before
    · intro place notMem
      rw [List.mem_cons, not_or] at notMem
      rw [others place notMem.2, List.getElem?_set_ne (Ne.symm notMem.1)]
  | refused => cases ended

/-- As many slots get filled as there are arguments. -/
theorem Ends.count_eq (h : Ends slots total filled arguments (.ok final)) :
    final.countP Option.isSome = filled.countP Option.isSome + arguments.length := by
  generalize ended : Except.ok final = outcome at h
  induction h with
  | done =>
    cases ended
    rfl
  | @placed filled label? value arguments position outcome goes rest ih =>
    obtain ⟨bound, empty⟩ := List.getElem?_eq_some_iff.1 goes.empty
    rw [ih ended, List.countP_set bound, empty, List.length_cons]
    simp
    omega
  | refused => cases ended

/-- Only names of slots are labels of arguments that are all placed. -/
theorem Ends.known (h : Ends slots total filled arguments (.ok final)) {label : String} {value : α}
    (mem : (some label, value) ∈ arguments) : ∃ slot ∈ slots, slot.name = label := by
  generalize ended : Except.ok final = outcome at h
  induction h with
  | done => cases mem
  | placed goes _ ih =>
    rcases List.mem_cons.1 mem with same | mem
    · cases same
      cases goes with
      | labeled named _ =>
        obtain ⟨slot, found, same⟩ := named.named
        exact ⟨slot, List.mem_of_getElem? found, same⟩
    · exact ih mem ended
  | refused => cases ended

/-- If all labels are known and there are enough slots, only a slot that is taken is a reason to
refuse an argument. -/
theorem Ends.duplicate {error : AlignmentError}
    (h : Ends slots total filled arguments (.error error))
    (known : ∀ label value, (some label, value) ∈ arguments → ∃ slot ∈ slots, slot.name = label)
    (enough : filled.countP Option.isSome + arguments.length ≤ filled.length) :
    ∃ label, error = .duplicateArgument label := by
  generalize ended : Except.error error = outcome at h
  induction h with
  | done => cases ended
  | @placed filled label? value arguments position outcome goes rest ih =>
    obtain ⟨bound, empty⟩ := List.getElem?_eq_some_iff.1 goes.empty
    refine ih (fun label value mem => known label value (List.mem_cons_of_mem _ mem)) ?_ ended
    rw [List.countP_set bound, empty, List.length_set]
    rw [List.length_cons] at enough
    simp
    omega
  | @refused filled label? error refused value arguments =>
    cases ended
    cases refused with
    | @unknown label absent =>
      obtain ⟨slot, mem, same⟩ := known label value List.mem_cons_self
      exact absurd same (absent slot mem)
    | @taken label => exact ⟨label, rfl⟩
    | full occupied =>
      have all : filled.countP Option.isSome = filled.length := by
        refine List.countP_eq_length.2 fun entry mem => ?_
        cases entry with
        | none => exact absurd mem occupied
        | some => rfl
      rw [List.length_cons] at enough
      omega

end Success

/-- Labeled arguments come earlier: they move ahead of arguments without a label, and change places
with labeled ones. -/
inductive Advances : List (Option String × α) → List (Option String × α) → Prop
  | refl (arguments : List (Option String × α)) : Advances arguments arguments
  | cons (argument : Option String × α) {arguments other : List (Option String × α)}
      (rest : Advances arguments other) : Advances (argument :: arguments) (argument :: other)
  | ahead (value : α) (label : String) (labeled : α) (arguments : List (Option String × α)) :
      Advances ((none, value) :: (some label, labeled) :: arguments)
        ((some label, labeled) :: (none, value) :: arguments)
  | swap (label label' : String) (labeled labeled' : α) (arguments : List (Option String × α)) :
      Advances ((some label, labeled) :: (some label', labeled') :: arguments)
        ((some label', labeled') :: (some label, labeled) :: arguments)
  | trans {first second third : List (Option String × α)} (earlier : Advances first second)
      (later : Advances second third) : Advances first third

/-- The same arguments in another order, which is no other order of those without a label. -/
structure Rearranges (arguments other : List (Option String × α)) : Prop where
  perm : arguments.Perm other
  order : arguments.filter (fun argument => argument.1.isNone) =
    other.filter fun argument => argument.1.isNone

section Order

variable {filled final : List (Option α)} {arguments other : List (Option String × α)}

theorem Advances.perm (h : Advances arguments other) : arguments.Perm other := by
  induction h with
  | refl => exact .refl _
  | cons argument _ ih => exact ih.cons argument
  | ahead => exact List.Perm.swap _ _ _
  | swap => exact List.Perm.swap _ _ _
  | trans _ _ first second => exact first.trans second

/-- Two arguments that go to different slots may be placed in either order. -/
theorem set_comm_of_empty {position place : Nat} {value : α} (value' : α)
    (empty : (filled.set position (some value))[place]? = some none) :
    position ≠ place ∧ filled[place]? = some none ∧
      (filled.set position (some value)).set place (some value') =
        (filled.set place (some value')).set position (some value) := by
  have different : position ≠ place := by
    rintro rfl
    rw [List.getElem?_set] at empty
    simp at empty
  rw [List.getElem?_set_ne different] at empty
  exact ⟨different, empty, List.set_comm _ _ different⟩

/-- A labeled argument may come earlier. -/
theorem Ends.advanced (advances : Advances arguments other)
    (h : Ends slots total filled arguments (.ok final)) :
    Ends slots total filled other (.ok final) := by
  induction advances generalizing filled with
  | refl => exact h
  | cons argument _ ih =>
    cases h with
    | placed goes rest => exact .placed goes (ih rest)
  | @ahead value label labeled arguments =>
    cases h with
    | @placed _ _ _ _ position _ goes rest =>
      cases rest with
      | @placed _ _ _ _ place _ goes' rest =>
        obtain ⟨different, empty, same⟩ := set_comm_of_empty labeled goes'.empty
        rw [same] at rest
        cases goes' with
        | labeled named _ =>
          cases goes with
          | unlabeled own first =>
            refine .placed (.labeled named empty) (.placed (.unlabeled ?_ ?_) rest)
            · rw [List.getElem?_set_ne (Ne.symm different), own]
            · intro earlier less
              rw [List.getElem?_set]
              split
              · split <;> simp
              · exact first earlier less
  | @swap label label' labeled labeled' arguments =>
    cases h with
    | @placed _ _ _ _ position _ goes rest =>
      cases rest with
      | @placed _ _ _ _ place _ goes' rest =>
        obtain ⟨different, empty, same⟩ := set_comm_of_empty labeled' goes'.empty
        rw [same] at rest
        cases goes' with
        | labeled named' _ =>
          cases goes with
          | labeled named own =>
            refine .placed (.labeled named' empty) (.placed (.labeled named ?_) rest)
            rw [List.getElem?_set_ne (Ne.symm different), own]
  | trans _ _ first second => exact second (first h)

/-- Labeled arguments can all go ahead of one without a label. -/
theorem advances_past {labeled : List (Option String × α)}
    (labels : ∀ argument ∈ labeled, argument.1.isSome) (value : α)
    (arguments : List (Option String × α)) :
    Advances ((none, value) :: (labeled ++ arguments)) (labeled ++ (none, value) :: arguments) := by
  induction labeled with
  | nil => exact .refl _
  | cons argument labeled ih =>
    obtain ⟨label?, own⟩ := argument
    obtain ⟨label, rfl⟩ := Option.isSome_iff_exists.1 (labels (label?, own) List.mem_cons_self)
    refine .trans (.ahead value label own _) (.cons _ (ih fun argument mem => ?_))
    exact labels argument (List.mem_cons_of_mem _ mem)

/-- All labeled arguments can go ahead of all others. -/
theorem advances_sorted (arguments : List (Option String × α)) :
    Advances arguments (arguments.filter (fun argument => argument.1.isSome) ++
      arguments.filter fun argument => argument.1.isNone) := by
  induction arguments with
  | nil => exact .refl _
  | cons argument arguments ih =>
    obtain ⟨label?, value⟩ := argument
    cases label? with
    | some label => exact .cons _ ih
    | none =>
      refine .trans (.cons _ ih) (advances_past (fun argument mem => ?_) value _)
      exact (List.mem_filter.1 mem).2

/-- Labeled arguments in front can be in any order. -/
theorem advances_perm {labeled labeled' : List (Option String × α)} (perm : labeled.Perm labeled')
    (labels : ∀ argument ∈ labeled, argument.1.isSome) (arguments : List (Option String × α)) :
    Advances (labeled ++ arguments) (labeled' ++ arguments) := by
  induction perm with
  | nil => exact .refl _
  | cons argument _ ih =>
    exact .cons _ (ih fun argument mem => labels argument (List.mem_cons_of_mem _ mem))
  | swap second first labeled =>
    obtain ⟨label?, own⟩ := first
    obtain ⟨label'?, own'⟩ := second
    obtain ⟨label, rfl⟩ := Option.isSome_iff_exists.1 (labels (label?, own) List.mem_cons_self)
    obtain ⟨label', rfl⟩ := Option.isSome_iff_exists.1
      (labels (label'?, own') (List.mem_cons_of_mem _ List.mem_cons_self))
    exact .swap label label' own own' _
  | trans perm _ ih ih' =>
    exact .trans (ih labels) (ih' fun argument mem => labels argument (perm.mem_iff.2 mem))

/-- However labeled arguments are moved, the slots are the same if the arguments fit at all. -/
theorem Ends.rearranged {final' : List (Option α)} (rearranges : Rearranges arguments other)
    (h : Ends slots total filled arguments (.ok final))
    (h' : Ends slots total filled other (.ok final')) : final = final' := by
  -- Both orders advance to the same one: labeled arguments first, then the others as they are.
  have sorted := h.advanced (advances_sorted arguments)
  have sorted' := h'.advanced (advances_sorted other)
  rw [← rearranges.order] at sorted'
  have moved := sorted.advanced (advances_perm (rearranges.perm.filter _)
    (fun argument mem => (List.mem_filter.1 mem).2) _)
  exact Except.ok.inj (moved.unique sorted')

end Order

end Alignment

open DeclLang.Alignment

section

variable {α : Type}

/-- Alignment ends as the rule says. -/
theorem align_ends (slots : List Slot) (arguments : List (Option String × α)) :
    Ends slots arguments.length (slots.map fun _ => none) arguments (align slots arguments) := by
  have start : Behind slots ({ filled := slots.map fun _ => none } : State α) :=
    ⟨List.length_map _, nofun⟩
  have ended := foldlM_ends arguments.length start arguments
  unfold align
  dsimp only
  cases folded : arguments.foldlM (place slots arguments.length)
      { filled := slots.map fun _ => none } with
  | error error =>
    rw [folded] at ended
    exact ended
  | ok state =>
    rw [folded] at ended
    exact ended

theorem countP_isSome_empty (slots : List Slot) :
    (slots.map fun _ => (none : Option α)).countP Option.isSome = 0 := by
  refine List.countP_eq_zero.2 fun entry mem => ?_
  obtain ⟨_, -, rfl⟩ := List.mem_map.1 mem
  exact Bool.false_ne_true

/-- Arguments that are not labeled stay in order; then any other order of the arguments fills the
same slots, or a labeled argument finds its slot taken. -/
theorem align_rearranged {slots : List Slot} {arguments other : List (Option String × α)}
    {filled : List (Option α)} (rearranges : Rearranges arguments other)
    (aligned : align slots arguments = .ok filled) :
    align slots other = .ok filled ∨ ∃ label, align slots other = .error (.duplicateArgument label) := by
  have ended := align_ends slots arguments
  have ended' := align_ends slots other
  rw [aligned] at ended
  rw [← rearranges.perm.length_eq] at ended'
  cases outcome : align slots other with
  | ok filled' =>
    rw [outcome] at ended'
    rw [ended.rearranged rearranges ended']
    exact .inl rfl
  | error error =>
    rw [outcome] at ended'
    have fits := ended.count_eq
    have bound := List.countP_le_length (p := Option.isSome) (l := filled)
    rw [ended.length_eq, fits] at bound
    obtain ⟨label, rfl⟩ := ended'.duplicate
      (fun label value mem => ended.known (rearranges.perm.mem_iff.2 mem))
      (by rwa [← rearranges.perm.length_eq])
    exact .inr ⟨label, rfl⟩

/-- Alignment puts arguments into slots from left to right, and ends with the first one that it
refuses.  When it succeeds, every argument sits in one slot, and no other slot is filled; labeled
arguments may then come earlier, in any order, and the slots stay the same.  A labeled argument that
comes later, behind one without a label, can find its slot taken: nothing else goes wrong then. -/
theorem aligned_as_ruled (slots : List Slot) (arguments : List (Option String × α)) :
    (∀ outcome, align slots arguments = outcome ↔
      Ends slots arguments.length (slots.map fun _ => none) arguments outcome) ∧
    ∀ filled, align slots arguments = .ok filled →
      (∃ positions : List Nat, positions.Nodup ∧
        List.Forall₂ (fun argument position => filled[position]? = some (some argument.2))
          arguments positions ∧
        ∀ position < slots.length, position ∉ positions → filled[position]? = some none) ∧
      filled.countP Option.isSome = arguments.length ∧
      (∀ other, Advances arguments other → align slots other = .ok filled) ∧
      ∀ other, Rearranges arguments other →
        align slots other = .ok filled ∨
          ∃ label, align slots other = .error (.duplicateArgument label) := by
  have ended := align_ends slots arguments
  refine ⟨fun outcome => ⟨fun same => same ▸ ended, fun h => ended.unique h⟩, ?_⟩
  intro filled aligned
  rw [aligned] at ended
  refine ⟨?_, ?_, fun other advances => ?_, fun other rearranges =>
    align_rearranged rearranges aligned⟩
  · obtain ⟨positions, nodup, sits, -, others⟩ := ended.placement
    refine ⟨positions, nodup, sits, fun position bound notMem => ?_⟩
    rw [others position notMem, List.getElem?_map, List.getElem?_eq_getElem bound]
    rfl
  · rw [ended.count_eq, countP_isSome_empty, Nat.zero_add]
  · have moved := ended.advanced advances
    rw [advances.perm.length_eq] at moved
    exact (align_ends slots other).unique moved

end

/-- Three slots without defaults. -/
def threeSlots : List Slot :=
  [⟨"a", false⟩, ⟨"b", false⟩, ⟨"c", false⟩]

/-- The last of three arguments has a label, and moves to the front. -/
theorem aligned_as_ruled_threeSlots :
    align threeSlots [(none, 1), (none, 2), (some "c", 3)] = .ok [some 1, some 2, some 3] ∧
      align threeSlots [(some "c", 3), (none, 1), (none, 2)] = .ok [some 1, some 2, some 3] := by
  have aligned : align threeSlots [(none, 1), (none, 2), (some "c", 3)] =
      .ok [some 1, some 2, some 3] := by decide
  obtain ⟨-, -, advanced, -⟩ := (aligned_as_ruled threeSlots _).2 _ aligned
  exact ⟨aligned, advanced _ (.trans (.cons _ (.ahead 2 "c" 3 [])) (.ahead 1 "c" 3 [(none, 2)]))⟩

/-- Where labeled arguments change places across one without a label, the order matters: the
argument without a label takes the slot that was meant for the second labeled one. -/
theorem behindUnlabeled_refused :
    align threeSlots [(some "a", 1), (none, 2), (some "c", 3)] = .ok [some 1, some 2, some 3] ∧
      align threeSlots [(some "c", 3), (none, 2), (some "a", 1)] =
        .error (.duplicateArgument "a") := by
  decide

end DeclLang
