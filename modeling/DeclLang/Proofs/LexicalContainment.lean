import DeclLang.Proofs.LexicalResolution
import DeclLang.Proofs.NamespacePaths

/-!
# References stay inside of the functions that they lead into

**Input.**  A tree whose records contain nothing but variables, and whose declarations have names
that are not empty and have no dots in them.

**Results.**
* `SeenFrom`, `made_seen`: what is bound in a scope around a place is declared in no function that
  is not around the place as well, and in no record that is.
* `declarationOf?_seen`: what comes from the namespace instead is a member of a namespace around the
  place, or of another declaration with the same path.
* `Scope.build_contains`: an identifier that stands for a declaration inside of a function is itself
  inside of that function, or in a namespace that shares the path of the function; and no identifier
  inside of a record stands for a field of that record.
-/

namespace DeclLang

namespace Node

/-- The node declares a record. -/
def IsRecord (node : Node) : Prop :=
  ∃ name generics declarations, node.kind = .recordDecl name generics declarations

/-- The node declares a namespace. -/
def IsNamespace (node : Node) : Prop :=
  ∃ name declarations, node.kind = .namespaceDecl name declarations

/-- The names of all declarations are neither empty nor paths. -/
def ProperlyNamed (root : Node) : Prop :=
  ∀ node ∈ root.preorder, ∀ name ∈ node.declaredName?, Path.IsName name

instance (root : Node) : Decidable root.ProperlyNamed :=
  inferInstanceAs
    (Decidable (∀ node ∈ root.preorder, ∀ name ∈ node.declaredName?, Path.IsName name))

/-- The node is in a namespace that is not inside of the function, but whose path begins with the
path of the function. -/
def InNamesake (root function node : Node) : Prop :=
  ∃ outer inner space, root.At outer function ∧ root.At inner space ∧ space.IsNamespace ∧
    node ∈ space.descendants ∧ space ∉ function.descendants ∧
    pathOf (⟨function, []⟩ :: outer) <+: pathOf (⟨space, []⟩ :: inner)

variable {root node : Node} {levels : List Level}

/-- What is in a field, or where nothing is declared, declares nothing. -/
theorem Fits.silent_child (fits : node.Fits true) {child : Node} (mem : child ∈ node.children) :
    child.Silent := by
  rcases fits with field | silent
  · exact field.2 child mem
  · exact silent.child mem

/-- Below a record there are only fields, and nodes that declare nothing. -/
theorem At.fits (place : root.At levels node) (fits : root.Fits false) :
    ∃ inside, node.Fits inside ∧ ((∃ level ∈ levels, level.parent.IsRecord) → inside = true) := by
  induction place with
  | here => exact ⟨false, fits, fun ⟨_, mem, _⟩ => (List.not_mem_nil mem).elim⟩
  | @deeper levels parent child elders younger outer children ih =>
    obtain ⟨inside, fitsParent, further⟩ := ih
    have mem : child ∈ parent.children := by simp [children]
    refine ⟨_, fitsParent.child mem, fun ⟨level, among, record⟩ => ?_⟩
    unfold within
    rcases List.mem_cons.1 among with rfl | among
    · obtain ⟨name, generics, declarations, same⟩ := record
      dsimp only at same
      rw [same]
      exact Bool.or_true _
    · rw [further ⟨level, among, record⟩, Bool.true_or]

theorem At.fits_of_record (place : root.At levels node) (fits : root.Fits false) {level : Level}
    (mem : level ∈ levels) (record : level.parent.IsRecord) : node.Fits true := by
  obtain ⟨inside, own, further⟩ := place.fits fits
  rwa [further ⟨level, mem, record⟩] at own

/-- A declaration other than a variable is in no record. -/
theorem At.not_record (place : root.At levels node) (fits : root.Fits false)
    (declares : node.declares = true) (other : node.isVariable = false) {level : Level}
    (mem : level ∈ levels) : ¬level.parent.IsRecord := by
  intro record
  have outside := (place.fits_of_record fits mem record).outside declares other
  cases outside

/-- What a subtree binds is declared in it, and not inside of a function of it. -/
theorem At.exists_of_mem_bindings (place : root.At levels node) {name : String} {id : NodeId}
    (mem : (name, id) ∈ node.bindings) :
    ∃ inside declaration, root.At (inside ++ levels) declaration ∧ declaration.id = id ∧
      ∀ level ∈ inside, ¬level.parent.IsFunction ∧ level.parent ∈ node.preorder := by
  induction node using children_induction generalizing levels with
  | step node ih =>
    have here : ∃ inside declaration, root.At (inside ++ levels) declaration ∧
        declaration.id = node.id ∧
        ∀ level ∈ inside, ¬level.parent.IsFunction ∧ level.parent ∈ node.preorder :=
      ⟨[], node, place, rfl, nofun⟩
    have below (other : ¬node.IsFunction) (mem : (name, id) ∈ node.children.flatMap bindings) :
        ∃ inside declaration, root.At (inside ++ levels) declaration ∧ declaration.id = id ∧
          ∀ level ∈ inside, ¬level.parent.IsFunction ∧ level.parent ∈ node.preorder := by
      obtain ⟨child, inChildren, bound⟩ := List.mem_flatMap.1 mem
      obtain ⟨elders, younger, -, placed⟩ := place.child inChildren
      obtain ⟨inside, declaration, found, same, apart⟩ := ih child inChildren placed bound
      refine ⟨inside ++ [⟨node, elders⟩], declaration, by simpa using found, same,
        fun level mem => ?_⟩
      rcases List.mem_append.1 mem with deeper | last
      · exact ⟨(apart level deeper).1,
          mem_preorder_of_mem_children inChildren (apart level deeper).2⟩
      · rw [List.mem_singleton.1 last]
        exact ⟨other, node.self_mem_preorder⟩
    have other (same : ∀ name generics parameters returnType body,
        node.kind ≠ .functionDecl name generics parameters returnType body) : ¬node.IsFunction :=
      fun ⟨_, _, _, _, _, isFunction⟩ => same _ _ _ _ _ isFunction
    rw [Node.bindings_eq] at mem
    split at mem
    · cases List.mem_singleton.1 mem
      exact here
    · rename_i same
      rcases List.mem_append.1 mem with inner | own
      · exact below (other fun _ _ _ _ _ isFunction => by rw [same] at isFunction; cases isFunction)
          inner
      · cases List.mem_singleton.1 own
        exact here
    · rename_i same
      rcases List.mem_append.1 mem with inner | own
      · exact below (other fun _ _ _ _ _ isFunction => by rw [same] at isFunction; cases isFunction)
          inner
      · cases List.mem_singleton.1 own
        exact here
    · cases mem
    · cases mem
    · cases mem
    · cases mem
    · rename_i different _ _ _ _ _ _
      exact below (other fun _ _ _ _ _ => different _ _ _ _ _) mem

end Node

/-- What has this identity is declared where it can be seen from a place with these levels: in no
function that is not around the place, and in no record that is. -/
def SeenFrom (root : Node) (whole : List Level) (id : NodeId) : Prop :=
  ∃ levels declaration, root.At levels declaration ∧ declaration.id = id ∧ ∀ level ∈ levels,
    (level.parent.IsFunction → ∃ around ∈ whole, around.parent = level.parent) ∧
      (level.parent.IsRecord → ∀ around ∈ whole, around.parent ≠ level.parent)

/-- A scope around a place is that of the innermost level, or one around the parent; what has been
bound in the latter since the parent was entered has been bound by this level or is its function. -/
theorem mem_scopesAround_cons {names : Namespace} {level : Level} {outer : List Level}
    {later : List (String × NodeId)} {scope : LexicalScope}
    (mem : scope ∈ scopesAround names (level :: outer) later) :
    (scope.made = level.made ++ later ∧ ∀ name id, scope.table name = some id →
        level.parent.IsNamespace ∧
          names.values[Path.join (pathOf (level :: outer)) ++ "." ++ name]? = some id) ∨
      ∃ next, scope ∈ scopesAround names outer next ∧ ∀ binding ∈ next,
        binding ∈ level.made ++ later ∨
          level.parent.IsFunction ∧ binding.2 = level.parent.id := by
  unfold scopesAround at mem
  split at mem
  · rename_i same
    rcases List.mem_cons.1 mem with rfl | further
    · exact .inl ⟨rfl, fun _ _ none => by cases none⟩
    · refine .inr ⟨_, further, fun binding own => .inr ⟨⟨_, _, _, _, _, same⟩, ?_⟩⟩
      rw [List.mem_singleton.1 own]
  · rcases List.mem_cons.1 mem with rfl | further
    · exact .inl ⟨rfl, fun _ _ none => by cases none⟩
    · exact .inr ⟨[], further, fun _ none => (List.not_mem_nil none).elim⟩
  · rcases List.mem_cons.1 mem with rfl | further
    · exact .inl ⟨rfl, fun _ _ none => by cases none⟩
    · exact .inr ⟨[], further, fun _ none => (List.not_mem_nil none).elim⟩
  · rename_i same
    rcases List.mem_cons.1 mem with rfl | further
    · exact .inl ⟨rfl, fun _ _ found => ⟨⟨_, _, same⟩, found⟩⟩
    · exact .inr ⟨[], further, fun _ none => (List.not_mem_nil none).elim⟩
  · exact .inr ⟨_, mem, fun _ among => .inl among⟩

section Places

variable {root node : Node} {whole inner outer levels : List Level} {level : Level}
  (distinct : root.Distinct) (fits : root.Fits false) (place : root.At whole node)

include distinct fits place

/-- What the elder siblings of a place have bound is seen from the place. -/
theorem elders_seen (split : whole = inner ++ level :: outer) :
    ∀ binding ∈ level.made, SeenFrom root whole binding.2 := by
  rintro ⟨name, id⟩ mem
  obtain ⟨above, child, younger, children, below⟩ := (split ▸ place).level
  have other : ¬level.parent.IsRecord := by
    rintro ⟨_, _, _, same⟩
    rw [Level.made, same] at mem
    cases mem
  have bound : (name, id) ∈ level.elders.flatMap Node.bindings := by
    unfold Level.made at mem
    split at mem
    · cases mem
    · exact mem
  obtain ⟨elder, among, bound⟩ := List.mem_flatMap.1 bound
  have inChildren : elder ∈ level.parent.children := by
    rw [children]
    exact List.mem_append_left _ among
  obtain ⟨_, _, -, placed⟩ := above.child inChildren
  obtain ⟨inside, declaration, found, same, apart⟩ := placed.exists_of_mem_bindings bound
  refine ⟨_, declaration, found, same, fun step mem => ?_⟩
  have further {step : Level} (mem : step ∈ level :: outer) : step ∈ whole := by
    rw [split]
    exact List.mem_append_right _ mem
  rcases List.mem_append.1 mem with deeper | mem
  · refine ⟨fun isFunction => absurd isFunction (apart step deeper).1,
      fun _ around within same => ?_⟩
    -- Else the place would be below the elder sibling.
    have inElder : node ∈ elder.preorder := Node.mem_preorder_trans (apart step deeper).2
      (same ▸ Node.mem_preorder_of_mem_descendants (place.mem_descendants within))
    exact (distinct.inner above.mem_preorder).elders_disjoint children among inElder below
  · rcases List.mem_cons.1 mem with rfl | mem
    · exact ⟨fun _ => ⟨level, further List.mem_cons_self, rfl⟩, fun record => absurd record other⟩
    · refine ⟨fun _ => ⟨step, further (List.mem_cons_of_mem _ mem), rfl⟩, fun record => ?_⟩
      -- In a record the elder siblings have bound nothing.
      have silent := (above.fits_of_record fits mem record).silent_child inChildren
      rw [silent.bindings_eq] at bound
      cases bound

/-- What is bound in a scope around a place is seen from the place. -/
theorem made_seen {names : Namespace} {later : List (String × NodeId)}
    (split : whole = inner ++ levels)
    (earlier : ∀ binding ∈ later, SeenFrom root whole binding.2) :
    ∀ scope ∈ scopesAround names levels later, ∀ binding ∈ scope.made,
      SeenFrom root whole binding.2 := by
  induction levels generalizing inner later with
  | nil =>
    intro scope mem
    cases List.mem_singleton.1 mem
    exact earlier
  | cons level outer ih =>
    have here := elders_seen distinct fits place split
    have next : whole = (inner ++ [level]) ++ outer := by simpa using split
    have both : ∀ binding ∈ level.made ++ later, SeenFrom root whole binding.2 := fun binding mem =>
      (List.mem_append.1 mem).elim (here binding) (earlier binding)
    obtain ⟨above, -⟩ := (split ▸ place).level
    intro scope mem
    rcases mem_scopesAround_cons mem with ⟨made, -⟩ | ⟨further, mem, bound⟩
    · rw [made]
      exact both
    · refine ih next (fun binding among => ?_) scope mem
      rcases bound binding among with before | ⟨isFunction, same⟩
      · exact both binding before
      · rw [same]
        refine ⟨outer, level.parent, above, rfl, fun step among => ⟨fun _ => ⟨step, ?_, rfl⟩, ?_⟩⟩
        · rw [next]
          exact List.mem_append_right _ among
        · obtain ⟨_, _, _, _, _, same⟩ := isFunction
          exact fun record => absurd record (above.not_record fits
            (by rw [Node.declares, same]; rfl) (by rw [Node.isVariable, same]) among)

end Places

/-- What a scope knows from the namespace is a declaration at top level, or a member of a namespace
around the place. -/
theorem table_of_mem_scopesAround {names : Namespace} {levels : List Level}
    {later : List (String × NodeId)} {scope : LexicalScope}
    (mem : scope ∈ scopesAround names levels later) {name : String} {id : NodeId}
    (found : scope.table name = some id) :
    names.values[name]? = some id ∨
      ∃ inner level outer, levels = inner ++ level :: outer ∧ level.parent.IsNamespace ∧
        names.values[Path.join (pathOf (level :: outer)) ++ "." ++ name]? = some id := by
  induction levels generalizing later with
  | nil =>
    cases List.mem_singleton.1 mem
    exact .inl found
  | cons level outer ih =>
    rcases mem_scopesAround_cons mem with ⟨-, member⟩ | ⟨next, further, -⟩
    · exact .inr ⟨[], level, outer, rfl, member name id found⟩
    · refine (ih further).imp_right fun ⟨inner, around, rest, split, isNamespace, member⟩ => ?_
      exact ⟨level :: inner, around, rest, by rw [split]; rfl, isNamespace, member⟩

section Paths

variable {root node : Node} {levels : List Level}

theorem Node.IsFunction.qualified (h : node.IsFunction) : node.qualifier?.isSome := by
  obtain ⟨_, _, _, _, _, same⟩ := h
  rw [Node.qualifier?, same]
  rfl

theorem Node.IsRecord.qualified (h : node.IsRecord) : node.qualifier?.isSome := by
  obtain ⟨_, _, _, same⟩ := h
  rw [Node.qualifier?, same]
  rfl

theorem Node.IsNamespace.qualified (h : node.IsNamespace) : node.qualifier?.isSome := by
  obtain ⟨_, _, same⟩ := h
  rw [Node.qualifier?, same]
  rfl

/-- The name that a declaration adds to paths is its own. -/
theorem Node.declaredName?_of_qualifier? {name : String} (h : node.qualifier? = some name) :
    node.declaredName? = some name := by
  obtain ⟨id, kind⟩ := node
  cases kind <;> first | exact h | cases h

/-- A declaration with a name adds it to the path. -/
theorem exists_pathOf_cons (levels : List Level) {level : Level}
    (h : level.parent.qualifier?.isSome) :
    ∃ name, pathOf (level :: levels) = pathOf levels ++ [name] := by
  obtain ⟨name, named⟩ := Option.isSome_iff_exists.1 h
  exact ⟨name, by rw [pathOf_cons, named]; rfl⟩

/-- The names around a place are those of declarations. -/
theorem pathOf_proper (proper : root.ProperlyNamed) (place : root.At levels node) :
    ∀ name ∈ pathOf levels, Path.IsName name := by
  intro name mem
  obtain ⟨level, among, named⟩ := List.mem_filterMap.1 mem
  obtain ⟨inner, outer, split⟩ := List.append_of_mem (List.mem_reverse.1 among)
  exact proper level.parent (split ▸ place).level.1.mem_preorder name
    (Node.declaredName?_of_qualifier? named)

/-- A declaration with a path stands below the names of the path except the last. -/
theorem pathOf_of_declaresAt (proper : root.ProperlyNamed) {names : List String} (some : names ≠ [])
    (plain : ∀ name ∈ names, '.' ∉ name.toList) {id : NodeId}
    (there : root.DeclaresAt (Path.join names) id) :
    ∃ levels declaration name, root.At levels declaration ∧ declaration.id = id ∧
      names = pathOf levels ++ [name] := by
  obtain ⟨levels, declaration, name, place, same, named, path⟩ := there
  have around := pathOf_proper proper place
  rw [Path.qualify_eq_join around] at path
  refine ⟨levels, declaration, name, place, same,
    Path.join_inj some (by simp) plain (fun other mem => ?_) path⟩
  rcases List.mem_append.1 mem with mem | mem
  · exact (around other mem).2
  · rw [List.mem_singleton.1 mem]
    exact (proper declaration place.mem_preorder name named).2

/-- A declaration at top level stands in no function, and in no record. -/
theorem seenFrom_of_top (proper : root.ProperlyNamed) {name : String} (plain : '.' ∉ name.toList)
    {id : NodeId} (there : root.DeclaresAt name id) (whole : List Level) :
    SeenFrom root whole id := by
  have single : Path.join [name] = name :=
    String.toList_injective (by simp [Path.join, List.intercalate])
  rw [← single] at there
  obtain ⟨levels, declaration, last, place, same, segments⟩ :=
    pathOf_of_declaresAt proper (List.cons_ne_nil _ _) (by simpa using plain) there
  have outermost : pathOf levels = [] := by
    have lengths := congrArg List.length segments
    simpa using lengths
  refine ⟨levels, declaration, place, same, fun level mem => ?_⟩
  have unnamed : ¬level.parent.qualifier?.isSome := by
    intro qualified
    obtain ⟨inner, outer, split⟩ := List.append_of_mem mem
    obtain ⟨last, further⟩ := exists_pathOf_cons outer qualified
    rw [split, pathOf_append, further] at outermost
    simp at outermost
  exact ⟨fun isFunction => absurd isFunction.qualified unnamed,
    fun record => absurd record.qualified unnamed⟩

/-- What a name stands for at a place is seen from there, or is a declaration with the path of a
namespace around the place. -/
theorem declarationOf?_seen (distinct : root.Distinct) (fits : root.Fits false)
    (proper : root.ProperlyNamed) {names : Namespace} (built : Namespace.build root = .ok names)
    (place : root.At levels node) {name : String} (plain : '.' ∉ name.toList) {id : NodeId}
    (found : declarationOf? names levels name = some id) :
    SeenFrom root levels id ∨
      ∃ inner level outer others declaration, levels = inner ++ level :: outer ∧
        level.parent.IsNamespace ∧ root.At others declaration ∧ declaration.id = id ∧
        pathOf others = pathOf (level :: outer) := by
  obtain ⟨scope, mem, candidate⟩ := List.exists_of_findSome?_eq_some found
  rcases Option.or_eq_some_iff.1 candidate with made | ⟨-, known⟩
  · obtain ⟨before, after, split, -⟩ := List.lookup_eq_some_iff.1 made
    have bound : (name, id) ∈ scope.made := by
      rw [← List.mem_reverse, split]
      exact List.mem_append_right _ List.mem_cons_self
    exact .inl (made_seen distinct fits place (List.nil_append levels).symm
      (fun _ mem => (List.not_mem_nil mem).elim) scope mem _ bound)
  · rcases table_of_mem_scopesAround mem known with
      top | ⟨inner, level, outer, split, space, member⟩
    · exact .inl (seenFrom_of_top proper plain (Namespace.declaresAt_of_build built top) levels)
    · have above := (split ▸ place).level.1
      obtain ⟨last, further⟩ := exists_pathOf_cons outer space.qualified
      have some : pathOf (level :: outer) ≠ [] := by simp [further]
      have properOwner : ∀ name ∈ pathOf (level :: outer), Path.IsName name := by
        obtain ⟨child, younger, children, -⟩ := (split ▸ place).level.2
        exact pathOf_proper proper (.deeper above children)
      have there := Namespace.declaresAt_of_build built member
      rw [← Path.join_concat some] at there
      have plainPath : ∀ other ∈ pathOf (level :: outer) ++ [name], '.' ∉ other.toList := by
        intro other mem
        rcases List.mem_append.1 mem with mem | mem
        · exact (properOwner other mem).2
        · rwa [List.mem_singleton.1 mem]
      obtain ⟨others, declaration, _, placed, same, segments⟩ :=
        pathOf_of_declaresAt proper (by simp) plainPath there
      exact .inr ⟨inner, level, outer, others, declaration, split, space, placed, same,
        (List.append_inj_left' segments rfl).symm⟩

section Target

variable {target : Node} (distinct : root.Distinct) (place : root.At levels node)

include distinct place

/-- A place from which a declaration is seen is inside of every function around the declaration. -/
theorem SeenFrom.inside (seen : SeenFrom root levels target.id)
    (mem : target ∈ root.preorder) {function : Node} (isFunction : function.IsFunction)
    (inRoot : function ∈ root.preorder) (around : target ∈ function.descendants) :
    node ∈ function.descendants := by
  obtain ⟨others, declaration, placed, same, apart⟩ := seen
  obtain rfl := Node.eq_of_id_eq distinct placed.mem_preorder mem same
  obtain ⟨level, among, rfl⟩ := (placed.encloses_iff distinct).2 ⟨inRoot, around⟩
  exact ((place.encloses_iff distinct).1 ((apart level among).1 isFunction)).2

/-- A place from which a declaration is seen is inside of no record around the declaration. -/
theorem SeenFrom.outside (seen : SeenFrom root levels target.id)
    (mem : target ∈ root.preorder) {record : Node} (isRecord : record.IsRecord)
    (inRoot : record ∈ root.preorder) (around : target ∈ record.descendants) :
    node ∉ record.descendants := by
  intro inside
  obtain ⟨others, declaration, placed, same, apart⟩ := seen
  obtain rfl := Node.eq_of_id_eq distinct placed.mem_preorder mem same
  obtain ⟨level, among, rfl⟩ := (placed.encloses_iff distinct).2 ⟨inRoot, around⟩
  obtain ⟨step, within, same⟩ := (place.encloses_iff distinct).2 ⟨inRoot, inside⟩
  exact (apart level among).2 isRecord step within same

section Namespace

variable {inner outer others : List Level} {level : Level}
  (split : levels = inner ++ level :: outer) (space : level.parent.IsNamespace)
  (placed : root.At others target) (path : pathOf others = pathOf (level :: outer))

include split space placed path

/-- If a declaration has the path of a namespace around the place, then a function around the
declaration is around the place, or its namesake is. -/
theorem inside_or_inNamesake {function : Node} (isFunction : function.IsFunction)
    (inRoot : function ∈ root.preorder) (around : target ∈ function.descendants) :
    node ∈ function.descendants ∨ root.InNamesake function node := by
  by_cases inside : node ∈ function.descendants
  · exact .inl inside
  · have above := (split ▸ place).level.1
    have below : node ∈ level.parent.descendants := place.mem_descendants (by simp [split])
    obtain ⟨step, among, rfl⟩ := (placed.encloses_iff distinct).2 ⟨inRoot, around⟩
    obtain ⟨first, last, ways⟩ := List.append_of_mem among
    refine .inr ⟨last, outer, level.parent, (ways ▸ placed).level.1, above, space, below,
      fun within => inside (Node.mem_descendants_trans within
        (Node.mem_preorder_of_mem_descendants below)), ?_⟩
    rw [← pathOf_elders level.parent level.elders, ← path, ways, pathOf_append,
      ← pathOf_elders step.parent step.elders]
    exact List.prefix_append _ _

/-- A declaration with the path of a namespace around the place is no field of a record around the
place. -/
theorem outside_of_namespace (fits : root.Fits false) {record : Node} (isRecord : record.IsRecord)
    (inRoot : record ∈ root.preorder) (field : target ∈ record.children) :
    node ∉ record.descendants := by
  intro inside
  obtain ⟨step, among, rfl⟩ := (place.encloses_iff distinct).2 ⟨inRoot, inside⟩
  have above := (split ▸ place).level.1
  -- The namespace is not in the record, so the record is on the way up to the namespace.
  have between : step ∈ inner := by
    rw [split, List.mem_append, List.mem_cons] at among
    rcases among with among | rfl | among
    · exact among
    · obtain ⟨_, _, _, isRecord⟩ := isRecord
      obtain ⟨_, _, isNamespace⟩ := space
      rw [isRecord] at isNamespace
      cases isNamespace
    · obtain ⟨name, declarations, same⟩ := space
      exact absurd isRecord (above.not_record fits (by rw [Node.declares, same]; rfl)
        (by rw [Node.isVariable, same]) among)
  obtain ⟨first, last, ways⟩ := List.append_of_mem between
  have whole : levels = first ++ step :: (last ++ level :: outer) := by
    rw [split, ways, List.append_assoc]
    rfl
  obtain ⟨elders, younger, -, fieldPlace⟩ := (whole ▸ place).level.1.child field
  have named : (Level.mk step.parent elders).parent.qualifier?.isSome := isRecord.qualified
  obtain ⟨name, longer⟩ := exists_pathOf_cons (last ++ level :: outer) named
  have lengths := congrArg List.length
    ((fieldPlace.pathOf_unique distinct placed).symm.trans longer)
  rw [path, pathOf_append] at lengths
  simp at lengths

end Namespace

end Target

end Paths

namespace Scope

/-- An identifier that stands for a declaration inside of a function is itself inside of that
function, or in a namespace that shares the path of the function; and no identifier inside of a
record stands for a field of that record. -/
theorem build_contains {root : Node} (distinct : root.Distinct)
    (small : ∀ id ∈ root.identities, id < NodeId.bound)
    (fields : ∀ node ∈ root.preorder, node.HoldsFields) (proper : root.ProperlyNamed)
    {names : Namespace} (built : Namespace.build root = .ok names) :
    ∃ scope diagnostics, build root names none = (.ok scope, diagnostics) ∧
      ∀ reference ∈ root.preorder, ∀ name, reference.kind = .identifier name → '.' ∉ name.toList →
        ∀ target ∈ root.preorder, scope.resolve reference.id = some target.id →
          (∀ function ∈ root.preorder, function.IsFunction → target ∈ function.descendants →
            reference ∈ function.descendants ∨ root.InNamesake function reference) ∧
          ∀ record ∈ root.preorder, record.IsRecord → target ∈ record.children →
            reference ∉ record.descendants := by
  obtain ⟨scope, diagnostics, toured, settles⟩ := build_settles names distinct small fields
  refine ⟨scope, diagnostics, toured, ?_⟩
  rintro ⟨id, kind⟩ inRoot name rfl plain target mem resolved
  obtain ⟨levels, place⟩ := Node.exists_at inRoot
  have rule : declarationOf? names levels name = some target.id := by
    rcases settles levels id name place plain with settled | ⟨-, unresolved⟩
    · cases found : declarationOf? names levels name with
      | none =>
        rw [found] at settled
        exact absurd (resolved.symm.trans settled.1) nofun
      | some declaration =>
        rw [found] at settled
        exact settled.1.symm.trans resolved
    · exact absurd (resolved.symm.trans unresolved) nofun
  rcases declarationOf?_seen distinct fields proper built place plain rule with
    seen | ⟨inner, level, outer, others, declaration, split, space, placed, same, path⟩
  · refine ⟨fun function inRoot isFunction around => .inl ?_,
      fun record inRoot isRecord field => ?_⟩
    · exact seen.inside distinct place mem isFunction inRoot around
    · exact seen.outside distinct place mem isRecord inRoot
        (Node.mem_descendants_of_mem_children field)
  · obtain rfl := Node.eq_of_id_eq distinct placed.mem_preorder mem same
    refine ⟨fun function inRoot isFunction around => ?_, fun record inRoot isRecord field => ?_⟩
    · exact inside_or_inNamesake distinct place split space placed path isFunction inRoot around
    · exact outside_of_namespace distinct place split space placed path fields isRecord inRoot
        field

/-- The function of the bakery is around every identifier that stands for its parameter, and its
record is around none that stands for the field. -/
theorem build_contains_bakery :
    ∃ names scope diagnostics, Namespace.build bakery = .ok names ∧
      build bakery names none = (.ok scope, diagnostics) ∧
      scope.resolve 12 = some 8 ∧ scope.resolve 14 = some 2 ∧
      (Node.mk 12 (.identifier "batch") ∈ bakeryFunction.descendants ∨
        bakery.InNamesake bakeryFunction (.mk 12 (.identifier "batch"))) ∧
      Node.mk 14 (.identifier "weight") ∉ bakeryRecord.descendants := by
  obtain ⟨distinct, small, fields⟩ := bakery_wellFormed
  have proper : bakery.ProperlyNamed := by decide +kernel
  have checked : ((Namespace.build bakery).toOption.bind fun names =>
      (build bakery names none).1.toOption.bind fun scope =>
        some (scope.resolve 12, scope.resolve 14)) = some (some 8, some 2) := by decide +kernel
  obtain ⟨names, found, checked⟩ := Option.bind_eq_some_iff.1 checked
  obtain ⟨scope, toured, resolved⟩ := Option.bind_eq_some_iff.1 checked
  simp only [Option.some.injEq, Prod.mk.injEq] at resolved
  obtain ⟨other, diagnostics, whole, contains⟩ :=
    build_contains distinct small fields proper (eq_ok_of_toOption found)
  rw [whole] at toured
  cases toured
  have second {node child : Node} {rest : List Node} {first : Node}
      (children : node.children = first :: child :: rest) : child ∈ node.children := by
    simp [children]
  have record : bakeryRecord ∈ bakery.preorder :=
    Node.mem_preorder_of_mem_children List.mem_cons_self (Node.self_mem_preorder _)
  have field : Node.mk 2 (.variableDecl "weight" none (some (.mk 3 (.literal (.boolean true))))) ∈
      bakeryRecord.children := List.mem_cons_self
  have function : bakeryFunction ∈ bakery.preorder :=
    Node.mem_preorder_of_mem_children (second rfl)
      (Node.mem_preorder_of_mem_children (second rfl) (Node.self_mem_preorder _))
  have parameter : Node.mk 8 (.parameter "batch" (.mk 9 (.typeName "Boolean" [])) none) ∈
      bakeryFunction.descendants := Node.mem_descendants_of_mem_children List.mem_cons_self
  have branch : bakeryBranch ∈ bakery.preorder := bakeryBranch_at.mem_preorder
  have condition : Node.mk 12 (.identifier "batch") ∈ bakery.preorder :=
    Node.mem_preorder_trans branch
      (Node.mem_preorder_of_mem_children List.mem_cons_self (Node.self_mem_preorder _))
  have weight : Node.mk 14 (.identifier "weight") ∈ bakery.preorder :=
    Node.mem_preorder_trans branch (Node.mem_preorder_of_mem_children (second rfl)
      (Node.mem_preorder_of_mem_children List.mem_cons_self (Node.self_mem_preorder _)))
  refine ⟨names, scope, diagnostics, eq_ok_of_toOption found, whole, resolved.1, resolved.2, ?_, ?_⟩
  · exact (contains _ condition _ rfl (by decide) _
      (Node.mem_preorder_trans function (Node.mem_preorder_of_mem_descendants parameter))
      resolved.1).1 _ function ⟨_, _, _, _, _, rfl⟩ parameter
  · exact (contains _ weight _ rfl (by decide) _
      (Node.mem_preorder_trans record
        (Node.mem_preorder_of_mem_children field (Node.self_mem_preorder _)))
      resolved.2).2 _ record ⟨_, _, _, rfl⟩ field

/-- A record with a record between two of its fields. -/
def outerRecord : Node :=
  .mk 2 (.recordDecl "Outer" []
    [.mk 3 (.variableDecl "a" none (some (.mk 4 (.literal (.boolean true))))),
      .mk 5 (.recordDecl "Inner" [] []),
      .mk 6 (.variableDecl "b" none (some (.mk 7 (.identifier "a"))))])

def nestedRecords : Node :=
  .mk 1 (.program [outerRecord])

/-- Records must contain nothing but variables: the inner record ends the wait of the first field of
the outer one, and the second field sees it. -/
theorem nestedRecords_capture :
    nestedRecords.Distinct ∧
    ∃ names scope diagnostics field reference, Namespace.build nestedRecords = .ok names ∧
      build nestedRecords names none = (.ok scope, diagnostics) ∧
      outerRecord ∈ nestedRecords.preorder ∧ outerRecord.IsRecord ∧
      field ∈ outerRecord.children ∧ field.isVariable = true ∧
      reference ∈ outerRecord.descendants ∧ reference.kind = .identifier "a" ∧
      scope.resolve reference.id = some field.id := by
  have checked : nestedRecords.identities.Nodup ∧
      ((Namespace.build nestedRecords).toOption.bind fun names =>
        (build nestedRecords names none).1.toOption.bind fun scope => scope.resolve 7) = some 3 := by
    decide +kernel
  obtain ⟨distinct, checked⟩ := checked
  obtain ⟨names, found, checked⟩ := Option.bind_eq_some_iff.1 checked
  obtain ⟨scope, toured, resolved⟩ := Option.bind_eq_some_iff.1 checked
  have last : Node.mk 6 (.variableDecl "b" none (some (.mk 7 (.identifier "a")))) ∈
      outerRecord.children :=
    List.mem_cons_of_mem _ (List.mem_cons_of_mem _ List.mem_cons_self)
  exact ⟨distinct, names, scope, _, _, .mk 7 (.identifier "a"), eq_ok_of_toOption found,
    Prod.ext (eq_ok_of_toOption toured) rfl,
    Node.mem_preorder_of_mem_children List.mem_cons_self (Node.self_mem_preorder _),
    ⟨_, _, _, rfl⟩, List.mem_cons_self, rfl,
    Node.mem_descendants_trans (Node.mem_descendants_of_mem_children last)
      (Node.mem_preorder_of_mem_children List.mem_cons_self (Node.self_mem_preorder _)),
    rfl, resolved⟩

/-- A function, and a namespace of the same name that reads its parameter. -/
def namesakes : Node :=
  .mk 1 (.program
    [.mk 2 (.functionDecl "f" [] [.mk 3 (.parameter "x" (.mk 4 (.typeName "Boolean" [])) none)]
        (.mk 5 (.typeName "Boolean" []))
        [.mk 6 (.returnStatement (some (.mk 7 (.identifier "x"))))]),
      .mk 8 (.namespaceDecl "f"
        [.mk 9 (.variableDecl "y" none (some (.mk 10 (.identifier "x"))))])])

example : ((Namespace.build namesakes).toOption.bind fun names =>
    (build namesakes names none).1.toOption.bind fun scope => scope.resolve 10) = some 3 := by
  decide +kernel

end Scope

end DeclLang
