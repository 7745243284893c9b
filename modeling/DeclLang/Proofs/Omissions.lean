import DeclLang.Proofs.ArgumentPassing
import DeclLang.Proofs.Placement

/-!
# Placeholders leave slots to their defaults

**Input.**  A function value or the constructor of a record, whose slots have pairwise distinct
names, and arguments that fill these slots.  An argument without a value is a placeholder.

**Rule.**  `Call.offer`: a slot has the value of its argument, or else its default.  `Call.labeled`
lists the arguments that have a value, each under the name of the slot that it went to.

**Results.**
* `align_of_perm`: labeled arguments go back to the slots that they are labeled with, in any order.
* `Call.exists_finish`: a call looks at its arguments only through what the slots receive.
* `Call.placeholders_omitted`: a call ends as it does without its placeholders and with all other
  arguments labeled; either every slot has a value, or the first one without is reported missing.
-/

namespace DeclLang

section Alignment

open DeclLang.Alignment

variable {α : Type}

/-- The arguments that slots were filled with, each with the name of its slot. -/
def relabeled (slots : List Slot) (filled : List (Option α)) : List (Option String × α) :=
  (slots.zip filled).filterMap fun entry => entry.2.map fun value => (some entry.1.name, value)

/-- In slots with distinct names, the one behind some others is the first of its name. -/
theorem firstNamed_of_nodup {before after : List Slot} {slot : Slot}
    (distinct : ((before ++ slot :: after).map Slot.name).Nodup) :
    FirstNamed (before ++ slot :: after) slot.name before.length := by
  rw [List.map_append, List.map_cons, List.nodup_append] at distinct
  refine ⟨⟨slot, by simp, rfl⟩, fun earlier less other found same => ?_⟩
  rw [List.getElem?_append_left less] at found
  have mem : other.name ∈ before.map Slot.name :=
    List.mem_map_of_mem (List.mem_of_getElem? found)
  exact distinct.2.2 _ mem _ List.mem_cons_self same

/-- Labeled arguments fill their slots from left to right. -/
theorem ends_relabeled {total : Nat} {front back : List (Option α)} {before after : List Slot}
    (distinct : ((before ++ after).map Slot.name).Nodup) (behind : front.length = before.length)
    (ahead : back.length = after.length) :
    Ends (before ++ after) total (front ++ after.map fun _ => none) (relabeled after back)
      (.ok (front ++ back)) := by
  induction after generalizing before front back with
  | nil =>
    obtain rfl := List.length_eq_zero_iff.1 ahead
    exact .done _
  | cons slot after ih =>
    obtain ⟨entry, back, rfl⟩ := List.exists_cons_of_length_eq_add_one ahead
    have rest := @ih (front ++ [entry]) back (before ++ [slot]) (by simpa using distinct)
      (by simp [behind]) (Nat.succ.inj ahead)
    rw [List.append_assoc, List.append_assoc, List.append_assoc] at rest
    cases entry with
    | none => exact rest
    | some value =>
      have empty : (front ++ none :: after.map fun _ => none)[before.length]? =
          some (none : Option α) := by
        rw [← behind, List.getElem?_append_right (Nat.le_refl _), Nat.sub_self]
        rfl
      refine .placed (.labeled (firstNamed_of_nodup distinct) empty) ?_
      rw [← behind, List.map_cons, List.set_append_right _ _ (Nat.le_refl _), Nat.sub_self]
      exact rest

/-- Arguments that are labeled with the names of their slots fill these slots, in any order. -/
theorem align_of_perm {slots : List Slot} (distinct : (slots.map Slot.name).Nodup)
    {filled : List (Option α)} (length : filled.length = slots.length)
    {arguments : List (Option String × α)} (perm : (relabeled slots filled).Perm arguments) :
    align slots arguments = .ok filled := by
  have labels : ∀ argument ∈ relabeled slots filled, argument.1.isSome := by
    intro argument mem
    obtain ⟨entry, -, labeled⟩ := List.mem_filterMap.1 mem
    obtain ⟨value, -, rfl⟩ := Option.map_eq_some_iff.1 labeled
    rfl
  have advances := advances_perm perm labels []
  rw [List.append_nil, List.append_nil] at advances
  have ended : Ends slots arguments.length (slots.map fun _ => none) (relabeled slots filled)
      (.ok filled) := @ends_relabeled _ _ [] filled [] slots distinct rfl length
  exact (align_ends slots arguments).unique (ended.advanced advances)

end Alignment

namespace Call

/-- What a slot is called with: the value of its argument, or else its default. -/
def offer (entry : (String × Option Value) × Option (Option Value)) : Option Value :=
  entry.2.join.or entry.1.2

/-- A slot without anything to be called with is missing. -/
def take (entry : (String × Option Value) × Option (Option Value)) : Except EvalError Value :=
  match offer entry with
  | some value => .ok value
  | none => .error (.missingArgument entry.1.1)

/-- The arguments with a value, each with the name of the slot that it went to. -/
def labeled (slots : List (String × Option Value)) (filled : List (Option (Option Value))) :
    Arguments :=
  (slots.zip filled).filterMap fun entry =>
    entry.2.join.map fun value => (some entry.1.1, some value)

/-- The slots as alignment sees them. -/
def slotsOf (slots : List (String × Option Value)) : List Slot :=
  slots.map fun slot => { name := slot.1, hasDefault := slot.2.isSome }

section Receive

variable {slots : List (String × Option Value)} {arguments : Arguments}
  {filled : List (Option (Option Value))}

theorem map_name_slotsOf (slots : List (String × Option Value)) :
    (slotsOf slots).map Slot.name = slots.map Prod.fst := by
  rw [slotsOf, List.map_map]
  rfl

/-- Without its placeholders, what filled the slots is the labeled arguments. -/
theorem relabeled_slotsOf (slots : List (String × Option Value))
    (filled : List (Option (Option Value))) :
    relabeled (slotsOf slots) (filled.map fun given => given.join.map some) =
      labeled slots filled := by
  unfold relabeled labeled slotsOf
  rw [List.zip_map, List.filterMap_map]
  refine List.filterMap_congr fun entry _ => ?_
  exact Option.map_map _ _ _

/-- What the slots receive is collected from the first one on. -/
theorem receive_of_align (aligned : align (slotsOf slots) arguments = .ok filled) :
    receive slots arguments = (slots.zip filled).mapM take := by
  unfold slotsOf at aligned
  unfold receive
  rw [aligned]
  rfl

/-- The first slot that has nothing to receive is missing. -/
theorem receive_missing (aligned : align (slotsOf slots) arguments = .ok filled)
    {before after : List ((String × Option Value) × Option (Option Value))}
    {missing : (String × Option Value) × Option (Option Value)}
    (split : slots.zip filled = before ++ missing :: after)
    (earlier : ∀ entry ∈ before, (offer entry).isSome) (none : offer missing = none) :
    receive slots arguments = .error (.missingArgument missing.1.1) := by
  rw [receive_of_align aligned, split]
  clear split
  induction before with
  | nil =>
    rw [List.nil_append, List.mapM_cons, take, none]
    rfl
  | cons entry before ih =>
    obtain ⟨value, first⟩ := Option.isSome_iff_exists.1 (earlier entry List.mem_cons_self)
    rw [List.cons_append, List.mapM_cons, take, first,
      ih fun other mem => earlier other (List.mem_cons_of_mem _ mem)]
    rfl

/-- The labeled arguments give every slot the same as all arguments do. -/
theorem receive_labeled (distinct : (slots.map Prod.fst).Nodup)
    (aligned : align (slotsOf slots) arguments = .ok filled) {other : Arguments}
    (perm : (labeled slots filled).Perm other) :
    receive slots other = receive slots arguments := by
  have length : filled.length = (slotsOf slots).length := align_length aligned
  rw [← relabeled_slotsOf] at perm
  have again : align (slotsOf slots) other = .ok (filled.map fun given => given.join.map some) :=
    align_of_perm (by rwa [map_name_slotsOf]) (by rw [List.length_map, length]) perm
  rw [receive_of_align aligned, receive_of_align again, List.zip_map_right, List.mapM_map]
  refine congrArg (fun step => (slots.zip filled).mapM step) (funext fun entry => ?_)
  obtain ⟨slot, given⟩ := entry
  have same : take (slot, given.join.map some) = take (slot, given) := by
    unfold take offer
    cases given.join <;> rfl
  exact same

/-- Either every slot has something to receive, or there is a first one that has not. -/
theorem offers_or_first (entries : List ((String × Option Value) × Option (Option Value))) :
    (∃ values : List Value, entries.map offer = values.map some) ∨
      ∃ before missing after, entries = before ++ missing :: after ∧
        (∀ entry ∈ before, (offer entry).isSome) ∧ offer missing = none := by
  cases first : entries.find? fun entry => (offer entry).isNone with
  | none =>
    refine .inl (exists_received fun entry mem => ?_)
    simpa [Option.isSome_iff_ne_none] using List.find?_eq_none.1 first entry mem
  | some missing =>
    obtain ⟨none, before, after, split, earlier⟩ := List.find?_eq_some_iff_append.1 first
    exact .inr ⟨before, missing, after, split, fun entry mem => by simpa using earlier entry mem,
      Option.isNone_iff_eq_none.1 none⟩

end Receive

/-- The slots of a record's constructor or of a function value. -/
def slots? (machine : Machine) (callee : Value) : Option (List (String × Option Value)) :=
  match callee.content with
  | .recordConstructor _ fields => some fields
  | .closure _ _ serial => machine.session.closures[serial]?.map Closure.slots
  | _ => none

section Calls

variable (plan : Plan) (limits : Limits) (evaluate : NodeId → Eval Value) (id : NodeId)
  (result : StaticType)

/-- A call first finds out what the slots receive, and looks no further at its arguments.  The
constructor of a record puts that into the fields, in order; a function value starts its body with
it. -/
theorem exists_finish {machine : Machine} {callee : Value} {slots : List (String × Option Value)}
    (callable : slots? machine callee = some slots) :
    ∃ finish : List Value → Eval Value,
      (∀ arguments, callValue plan limits evaluate id callee arguments result machine =
        (Eval.ofExcept (receive slots arguments) >>= finish) machine) ∧
      (∀ record fields, callee.content = .recordConstructor record fields → ∀ values,
        finish values machine =
          (.ok (.mk result (.record ((slots.map Prod.fst).zip values))), machine)) ∧
      ∀ name declaration serial closure, callee.content = .closure name declaration serial →
        machine.session.closures[serial]? = some closure →
          finish = closure.run plan limits evaluate := by
  unfold slots? at callable
  split at callable
  · rename_i record fields constructs
    cases callable
    refine ⟨fun values => return .mk result (.record ((slots.map Prod.fst).zip values)),
      fun arguments => ?_, fun _ _ _ _ => rfl, fun _ _ _ _ other => ?_⟩
    · unfold callValue
      rw [constructs]
    · rw [constructs] at other
      cases other
  · rename_i name declaration serial closes
    obtain ⟨closure, made, rfl⟩ := Option.map_eq_some_iff.1 callable
    refine ⟨closure.run plan limits evaluate, fun arguments => ?_, fun _ _ other => ?_,
      fun _ _ _ _ same found => ?_⟩
    · have got : (get : Eval Machine) machine = (.ok machine, machine) := rfl
      unfold callValue
      rw [closes]
      dsimp only
      rw [Step.bind_ok got, made]
      exact congrFun (callClosure_eq plan limits evaluate closure arguments) machine
    · rw [closes] at other
      cases other
    · rw [closes] at same
      cases same
      rw [made] at found
      cases found
      rfl
  · cases callable

/-- Placeholders are omissions.  A function value or a constructor whose slots have distinct names
is called as well with only the arguments that have a value, each labeled with the name of its slot,
in any order: value or error, and what becomes of the machine, are the same.

Either every slot has a value, which is that of its argument or else its default; then a constructor
makes a record of these values in the order of the fields, and a function value runs its body with
them in its parameters.  Or the call fails with the name of the first slot that has neither. -/
theorem placeholders_omitted {machine : Machine} {callee : Value}
    {slots : List (String × Option Value)} (callable : slots? machine callee = some slots)
    (distinct : (slots.map Prod.fst).Nodup) {arguments : Arguments}
    {filled : List (Option (Option Value))}
    (aligned : align (slotsOf slots) arguments = .ok filled) :
    (∀ other : Arguments, (labeled slots filled).Perm other →
      callValue plan limits evaluate id callee other result machine =
        callValue plan limits evaluate id callee arguments result machine) ∧
    ((∃ values : List Value, (slots.zip filled).map offer = values.map some ∧
        (∀ record fields, callee.content = .recordConstructor record fields →
          callValue plan limits evaluate id callee arguments result machine =
            (.ok (.mk result (.record ((slots.map Prod.fst).zip values))), machine)) ∧
        ∀ name declaration serial closure, callee.content = .closure name declaration serial →
          machine.session.closures[serial]? = some closure →
            callValue plan limits evaluate id callee arguments result machine =
              closure.run plan limits evaluate values machine) ∨
      ∃ before missing after, slots.zip filled = before ++ missing :: after ∧
        (∀ entry ∈ before, (offer entry).isSome) ∧ offer missing = none ∧
        callValue plan limits evaluate id callee arguments result machine =
          (.error (.missingArgument missing.1.1), machine)) := by
  obtain ⟨finish, calls, constructs, runs⟩ := exists_finish plan limits evaluate id result callable
  refine ⟨fun other perm => ?_, ?_⟩
  · rw [calls, calls, receive_labeled distinct aligned perm]
  · rcases offers_or_first (slots.zip filled) with
      ⟨values, all⟩ | ⟨before, missing, after, split, earlier, none⟩
    · have received : Eval.ofExcept (receive slots arguments) machine = (.ok values, machine) := by
        rw [receive_of_aligned aligned all]
        rfl
      have goesOn := (calls arguments).trans (Step.bind_ok received)
      refine .inl ⟨values, all, fun record fields constructor => ?_,
        fun name declaration serial closure closes made => ?_⟩
      · rw [goesOn, constructs record fields constructor]
      · rw [goesOn, runs name declaration serial closure closes made]
    · have fails : Eval.ofExcept (receive slots arguments) machine =
          (.error (.missingArgument missing.1.1), machine) := by
        rw [receive_missing aligned split earlier none]
        rfl
      exact .inr ⟨before, missing, after, split, earlier, none,
        (calls arguments).trans (Step.bind_error fails)⟩

end Calls

/-- A record with three fields, the second of which has a default. -/
def boxFields : List (String × Option Value) :=
  [("a", none), ("b", some (.string "b")), ("c", none)]

/-- A function with a required and an optional parameter. -/
def pairFunction : Closure where
  declaration := .mk 1 .placeholder
  parameters :=
    [(.mk 2 (.parameter "a" (.mk 3 (.typeName "String" [])) none), none),
      (.mk 4 (.parameter "b" (.mk 5 (.typeName "String" [])) none), some (.string "b"))]
  base := {}

/-- A placeholder between two arguments of a constructor, and one in the place of a parameter that
is required. -/
theorem placeholders_omitted_boxAndPair :
    (callValue {} {} (fun _ => throw .divisionByZero) 0 (.mk .unit (.recordConstructor 0 boxFields))
        [(some "c", some (.string "z")), (some "a", some (.string "x"))] .unit {} =
      callValue {} {} (fun _ => throw .divisionByZero) 0
        (.mk .unit (.recordConstructor 0 boxFields))
        [(none, some (.string "x")), (none, none), (some "c", some (.string "z"))] .unit {}) ∧
    (callValue {} {} (fun _ => throw .divisionByZero) 0 (.mk .unit (.closure "pair" 1 0))
        [(some "b", some (.string "y"))] .unit { session := { closures := #[pairFunction] } } =
      callValue {} {} (fun _ => throw .divisionByZero) 0 (.mk .unit (.closure "pair" 1 0))
        [(none, none), (none, some (.string "y"))] .unit
          { session := { closures := #[pairFunction] } }) := by
  have box : align (slotsOf boxFields)
      [(none, some (Value.string "x")), (none, none), (some "c", some (.string "z"))] =
        .ok [some (some (.string "x")), some none, some (some (.string "z"))] := rfl
  have pair : align (slotsOf pairFunction.slots)
      [((none : Option String), none), (none, some (Value.string "y"))] =
        .ok [some none, some (some (.string "y"))] := rfl
  exact ⟨(placeholders_omitted {} {} (fun _ => throw .divisionByZero) 0 .unit rfl (by decide)
      box).1 _ (.swap _ _ _),
    (placeholders_omitted {} {} (fun _ => throw .divisionByZero) 0 .unit rfl (by decide)
      pair).1 _ (.refl _)⟩

end Call

end DeclLang
