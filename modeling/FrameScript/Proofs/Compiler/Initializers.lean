import FrameScript.Proofs.Compiler.Breaks
import FrameScript.Proofs.Compiler.Shape

/-!
# Initial values in compiled code

A `var` statement ends with the instruction that stores the initial value of its variable. In the
order of the code this instruction comes before every use of the variable. Where all `var`
statements are at top level and every `break` is inside a loop, no jump passes over it, so that
there is no other way to the code behind it.
-/

namespace FrameScript

/-! ### Declarations and uses -/

/-- The `var` statement of the variable in a slot stores the initial value at an index. -/
def Program.InitializesAt (p : Program) (slot index : Nat) : Prop :=
  ∃ start name initializer, (start, .declare name initializer) ∈ p.places ∧
    p.declarations[slot]? = some name ∧ index = start + initializer.size

section

variable {r : Registry} {index : Nat} {name : String}

mutual

/-- A statement declares the names of the `var` statements in it, itself included. -/
theorem Stmt.mem_declarations_iff : ∀ (s : Stmt) (start : Nat),
    name ∈ s.declarations ↔ ∃ index e, (index, .declare name e) ∈ s.places start
  | .declare _ _, _ => by simp [declarations, places]
  | .cond condition body, start | .loop condition body, start => by
    simp [declarations, places, mem_bodyDeclarations_iff body (start + condition.size + 1)]
  | .call _ _, _ | .assign _ _, _ | .leave, _ | .suspend, _ => by simp [declarations, places]

/-- Statements declare the names of the `var` statements among and in them. -/
theorem Stmt.mem_bodyDeclarations_iff : ∀ (body : List Stmt) (start : Nat),
    name ∈ Stmt.bodyDeclarations body ↔
      ∃ index e, (index, .declare name e) ∈ Stmt.bodyPlaces start body
  | [], _ => by simp [bodyDeclarations, bodyPlaces]
  | s :: body, start => by
    rw [bodyDeclarations, bodyPlaces, List.mem_append, mem_declarations_iff s start,
      mem_bodyDeclarations_iff body (start + s.size)]
    simp only [List.mem_append, exists_or]

end

mutual

/-- An expression with which nothing is wrong uses only declared variables. -/
theorem Expr.mem_of_variable_mem_places {declared : List String} : ∀ (e : Expr) {start : Nat},
    e.violations r declared = [] → (index, .variable name) ∈ e.places start → name ∈ declared
  | .number _, _, _, h | .bool _, _, _, h => by simp [places] at h
  | .variable v, start, hsound, h => by
    cases List.mem_singleton.mp h
    by_contra hmem
    rw [violations, useViolations, if_neg hmem] at hsound
    cases hsound
  | .binary left op right, start, hsound, h => by
    rw [violations, List.append_eq_nil_iff] at hsound
    rw [places, List.mem_cons, List.mem_append] at h
    rcases h with heq | h | h
    · cases heq
    · exact mem_of_variable_mem_places left hsound.1 h
    · exact mem_of_variable_mem_places right hsound.2 h
  | .call f args, start, hsound, h => by
    rw [violations, List.append_eq_nil_iff] at hsound
    rw [places, List.mem_cons] at h
    rcases h with heq | h
    · cases heq
    · exact mem_of_variable_mem_listPlaces args hsound.2 h

/-- Expressions with which nothing is wrong use only declared variables. -/
theorem Expr.mem_of_variable_mem_listPlaces {declared : List String} :
    ∀ (es : List Expr) {start : Nat}, Expr.listViolations r declared es = [] →
      (index, .variable name) ∈ Expr.listPlaces start es → name ∈ declared
  | [], _, _, h => by simp [listPlaces] at h
  | e :: es, start, hsound, h => by
    rw [listViolations, List.append_eq_nil_iff] at hsound
    rcases List.mem_append.mp h with h | h
    · exact mem_of_variable_mem_places e hsound.1 h
    · exact mem_of_variable_mem_listPlaces es hsound.2 h

end

mutual

/-- Where nothing is wrong with a statement, a variable that is used in it was declared before it,
or is declared in it and has its initial value stored before the use. -/
theorem Stmt.declared_of_mem_expressionPlaces : ∀ (s : Stmt) {declared : List String} {start : Nat},
    s.violations r declared = [] → (index, .variable name) ∈ s.expressionPlaces start →
    name ∈ declared ∨ ∃ place e, (place, .declare name e) ∈ s.places start ∧ place + e.size < index
  | .call _ args, _, _, hsound, h => by
    rw [violations, List.append_eq_nil_iff] at hsound
    exact .inl (Expr.mem_of_variable_mem_listPlaces args hsound.2 h)
  | .assign _ value, _, _, hsound, h | .declare _ value, _, _, hsound, h => by
    rw [violations, List.append_eq_nil_iff] at hsound
    exact .inl (Expr.mem_of_variable_mem_places value hsound.1 h)
  | .cond condition body, _, start, hsound, h | .loop condition body, _, start, hsound, h => by
    rw [violations, List.append_eq_nil_iff] at hsound
    rcases List.mem_append.mp h with h | h
    · exact .inl (Expr.mem_of_variable_mem_places condition hsound.1 h)
    · rcases declared_of_mem_bodyExpressionPlaces body hsound.2 h with hmem |
        ⟨place, e, hplace, hlt⟩
      · exact .inl hmem
      · exact .inr ⟨place, e, List.mem_cons_of_mem _ hplace, hlt⟩
  | .leave, _, _, _, h | .suspend, _, _, _, h => by simp [expressionPlaces] at h

/-- Where nothing is wrong, a variable that is used was declared before, and if this happened in the
same statements, then its initial value is stored before the use. -/
theorem Stmt.declared_of_mem_bodyExpressionPlaces :
    ∀ (body : List Stmt) {declared : List String} {start : Nat},
      Stmt.bodyViolations r declared body = [] →
      (index, .variable name) ∈ Stmt.bodyExpressionPlaces start body →
      name ∈ declared ∨
        ∃ place e, (place, .declare name e) ∈ Stmt.bodyPlaces start body ∧ place + e.size < index
  | [], _, _, _, h => by simp [bodyExpressionPlaces] at h
  | s :: body, declared, start, hsound, h => by
    rw [bodyViolations, List.append_eq_nil_iff] at hsound
    rcases List.mem_append.mp h with h | h
    · rcases declared_of_mem_expressionPlaces s hsound.1 h with hmem | ⟨place, e, hplace, hlt⟩
      · exact .inl hmem
      · exact .inr ⟨place, e, List.mem_append_left _ hplace, hlt⟩
    · have huse := bounds_of_mem_bodyExpressionPlaces body h
      rcases declared_of_mem_bodyExpressionPlaces body hsound.2 h with
        hmem | ⟨place, e, hplace, hlt⟩
      · rcases List.mem_append.mp hmem with hmem | hmem
        · exact .inl hmem
        · -- the first statement declares the variable, and its code ends before the use
          obtain ⟨place, e, hplace⟩ := (s.mem_declarations_iff start).mp hmem
          have hbounds := bounds_of_mem_places s hplace
          rw [size] at hbounds
          exact .inr ⟨place, e, List.mem_append_left _ hplace, by omega⟩
      · exact .inr ⟨place, e, List.mem_append_right _ hplace, hlt⟩

end

end

/-! ### Statements beside declarations -/

/-- Every `var` statement is at top level: no body declares anything. -/
def Program.DeclaresAtTop (p : Program) : Prop :=
  ∀ s ∈ p.statements, ∀ body ∈ s.body?, Stmt.bodyDeclarations body = []

/-- Every `break` is inside a loop. -/
def Program.BreaksInLoops (p : Program) : Prop :=
  ∀ site ∈ p.breakSites, site.loop.isSome = true

instance (p : Program) : Decidable p.DeclaresAtTop :=
  inferInstanceAs
    (Decidable (∀ s ∈ p.statements, ∀ body ∈ s.body?, Stmt.bodyDeclarations body = []))

instance (p : Program) : Decidable p.BreaksInLoops :=
  inferInstanceAs (Decidable (∀ site ∈ p.breakSites, site.loop.isSome = true))

/-- A statement whose bodies declare nothing contains no `var` statement but itself. -/
theorem Stmt.eq_declare_of_mem_places {s : Stmt} {start index : Nat} {name : String} {e : Expr}
    (h : ∀ body ∈ s.body?, Stmt.bodyDeclarations body = [])
    (hplace : (index, .declare name e) ∈ s.places start) : s = .declare name e := by
  cases s with
  | cond condition body | loop condition body =>
    rcases List.mem_cons.mp hplace with heq | hplace
    · cases heq
    · have hmem := (mem_bodyDeclarations_iff body _).mpr ⟨index, e, hplace⟩
      rw [h body rfl] at hmem
      cases hmem
  | call | assign | declare | leave | suspend =>
    cases List.mem_singleton.mp hplace <;> rfl

/-- A top-level `var` statement is before or behind each statement with a body. -/
theorem Stmt.apart_of_mem_bodyPlaces {index place : Nat} {inner : Stmt} {name : String} {e : Expr}
    (hinner : inner.hasBody = true) : ∀ (body : List Stmt) {start : Nat},
    (∀ s ∈ body, ∀ inside ∈ s.body?, Stmt.bodyDeclarations inside = []) →
    (place, .declare name e) ∈ Stmt.bodyPlaces start body →
    (index, inner) ∈ Stmt.bodyPlaces start body →
    place + e.size < index ∨ index + inner.size ≤ place
  | [], _, _, h, _ => by simp [bodyPlaces] at h
  | s :: body, start, htop, hdeclare, h => by
    rcases List.mem_append.mp hdeclare with hdeclare | hdeclare <;>
      rcases List.mem_append.mp h with h | h
    · obtain rfl := eq_declare_of_mem_places (htop s List.mem_cons_self) hdeclare
      cases List.mem_singleton.mp h
      cases hinner
    · have hfirst := bounds_of_mem_places s hdeclare
      have hsecond := bounds_of_mem_bodyPlaces body h
      rw [size] at hfirst
      omega
    · have hfirst := bounds_of_mem_places s h
      have hsecond := bounds_of_mem_bodyPlaces body hdeclare
      omega
    · exact apart_of_mem_bodyPlaces hinner body
        (fun t ht => htop t (List.mem_cons_of_mem _ ht)) hdeclare h

/-! ### No way around an initial value -/

/-- Code of a program in which no initial value can be passed over: every `var` statement is at top
level and every `break` is inside a loop. -/
structure Guarded (p : Program) (r : Registry) (f : Function) : Prop where
  compiled : Compiled p p.declarations f
  sound : p.violations r = []
  nodup : p.declarations.Nodup
  top : p.DeclaresAtTop
  breaks : p.BreaksInLoops

/-- A program that compiles is guarded if its `var` statements are at top level and its `break`
statements are in loops. -/
theorem Program.guarded_of_compile {p : Program} {r : Registry} {f : Function}
    (h : p.compile r = .ok f) (htop : p.DeclaresAtTop) (hbreaks : p.BreaksInLoops) :
    Guarded p r f := by
  obtain ⟨d, hblock, rfl⟩ := compile_eq_ok.mp h
  have hemits := Draft.emits_of_block p.statements hblock
  have hnames : d.names = p.declarations := hemits.names_eq
  exact ⟨hnames ▸ compiled_of_block hblock, violations_eq_nil_of_block hblock,
    hnames ▸ hemits.names_nodup List.nodup_nil, htop, hbreaks⟩

namespace Guarded

variable {p : Program} {r : Registry} {f : Function} (h : Guarded p r f) {index : Nat}
  {i : Instruction}

include h

/-- A `break` leads at most to the end of the loop around it. -/
theorem leave_within (hplace : (index, .leave) ∈ p.places) {target : Nat}
    (hi : f.instructions[index]? = some ⟨.goto, .jump target⟩) :
    ∃ start s, (start, s) ∈ p.places ∧ s.hasBody = true ∧ start ≤ index ∧
      target ≤ start + s.size := by
  have hevent := Program.leave_mem_events_iff.mpr hplace
  obtain ⟨site, hsite, rfl⟩ : ∃ site ∈ p.breakSites, site.index = index :=
    Stmt.exists_bodyBreakSite p.statements hevent
  have hplaced := h.compiled.placed hsite
  obtain ⟨span, hspan⟩ := Option.isSome_iff_exists.mp (h.breaks site hsite)
  obtain ⟨hstart, hafter⟩ := hplaced.inside span hspan
  have htarget : site.target? = some target := by
    rw [← hplaced.targetAt?_eq, Function.targetAt?, hi]
    rfl
  have hle : target ≤ span.after := by
    rw [BreakSite.target?] at htarget
    cases hnext : site.next with
    | none =>
      rw [hnext, hspan] at htarget
      cases htarget
      exact Nat.le_refl _
    | some event =>
      rw [hnext] at htarget
      cases event with
      | leave => cases htarget
      | close after =>
        cases htarget
        exact Nat.le_of_lt (hplaced.close_lt span hspan target hnext)
  rcases h.compiled.goto_cases h.sound (hplaced.closing span hspan) with ⟨-, hlt⟩ |
    ⟨condition, body, hloop, -, hlast⟩
  · omega
  · exact ⟨span.start, _, hloop, rfl, hstart, by omega⟩

/-- A jump stays in the code of a statement with a body, or leads to the end of it. -/
theorem jump_within (hi : f.instructions[index]? = some i) {target : Nat}
    (htarget : i.operand = .jump target) :
    ∃ start s, (start, s) ∈ p.places ∧ s.hasBody = true ∧ start ≤ index ∧
      target ≤ start + s.size := by
  rcases h.compiled.origin h.sound hi with ⟨-, rfl⟩ | horigin
  · cases htarget
  · cases horigin with
    | cond place test | loop place test =>
      cases htarget
      exact ⟨_, _, place, rfl, by omega, Nat.le_refl _⟩
    | back place test last =>
      cases htarget
      rw [Stmt.size] at last
      exact ⟨_, _, place, rfl, by omega, Nat.le_add_right _ _⟩
    | leave place =>
      dsimp only at htarget
      rw [htarget] at hi
      exact h.leave_within place hi
    | number | bool | get | binary | value | effect | assign | declare | suspend => cases htarget

/-- No jump leads over the store of an initial value to the code behind it. -/
theorem store_lt_of_jump (hi : f.instructions[index]? = some i) {target : Nat}
    (htarget : i.operand = .jump target) {slot store : Nat} (hstore : p.InitializesAt slot store)
    (hlt : store < target) : store < index := by
  obtain ⟨place, name, e, hdeclare, -, rfl⟩ := hstore
  obtain ⟨start, s, hs, hbody, hstart, hend⟩ := h.jump_within hi htarget
  rcases Stmt.apart_of_mem_bodyPlaces hbody p.statements h.top hdeclare hs with hbefore | hbehind
  · omega
  · omega

/-- The initial value of a variable is stored in its slot. -/
theorem store_at {slot store : Nat} (hstore : p.InitializesAt slot store) :
    f.instructions[store]? = some ⟨.setLocal, .slot slot⟩ := by
  obtain ⟨place, name, e, hplace, hname, rfl⟩ := hstore
  have hcode := h.compiled.codeAt_of_mem_places hplace
  rw [Stmt.code, codeAt_append, codeAt_cons, Expr.length_code] at hcode
  obtain ⟨-, hslot⟩ := idxOf?_eq_some.mp ((idxOf?_eq_some_iff_of_nodup h.nodup).mpr hname)
  rw [hcode.2.1, hslot]

/-- What is read from a slot is stored there first, in the order of the code. -/
theorem initialized_of_getLocal (hi : f.instructions[index]? = some i) (hop : i.op = .getLocal) :
    ∃ slot store, i.operand = .slot slot ∧ p.InitializesAt slot store ∧ store < index := by
  rcases h.compiled.origin h.sound hi with ⟨-, rfl⟩ | horigin
  · cases hop
  · cases horigin with
    | @get name place declared =>
      rcases Stmt.declared_of_mem_bodyExpressionPlaces p.statements h.sound place with hnil |
        ⟨start, e, hdeclare, hlt⟩
      · cases hnil
      · exact ⟨_, _, rfl, ⟨start, name, e, hdeclare, List.getElem?_idxOf declared, rfl⟩, hlt⟩
    | @binary start left op => cases op <;> cases hop
    | number | bool | value | effect | assign | declare | cond | loop | back | leave
    | suspend => cases hop

end Guarded

end FrameScript
