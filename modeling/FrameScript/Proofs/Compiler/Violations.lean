import FrameScript.Proofs.Compiler.Walk
import Mathlib.Data.List.Nodup

/-!
# What compilation refuses

What is wrong with a program can be listed without compiling it: every part of the tree is held
against the names that are declared before it, in the order of the source. Compilation fails with
the first entry of this list and succeeds if there is none, whatever the compiler did before.
-/

namespace FrameScript

/-! ### The list -/

/-- What is wrong with a call as such, apart from its arguments. -/
def Registry.callViolations (r : Registry) (name : String) (count : Nat) (valueNeeded : Bool) :
    List ScriptError :=
  match r.find? name with
  | none => [.unknownFunction name]
  | some b =>
    (if b.arity = count then [] else [.arityMismatch name b.arity count]) ++
      if valueNeeded && !b.returnsValue then [.noReturnValue name] else []

/-- What is wrong with the use of a variable. -/
def useViolations (declared : List String) (name : String) : List ScriptError :=
  if name ∈ declared then [] else [.undefinedVariable name]

namespace Expr

mutual

/-- All that is wrong with an expression, given the names that are declared. -/
def violations (r : Registry) (declared : List String) : Expr → List ScriptError
  | .number _ | .bool _ => []
  | .variable name => useViolations declared name
  | .binary left _ right => left.violations r declared ++ right.violations r declared
  | .call name args =>
    r.callViolations name args.length true ++ listViolations r declared args

/-- All that is wrong with several expressions, from left to right. -/
def listViolations (r : Registry) (declared : List String) : List Expr → List ScriptError
  | [] => []
  | e :: es => e.violations r declared ++ listViolations r declared es

end

end Expr

namespace Stmt

mutual

/-- The names that a statement declares at any depth, in the order of the source. -/
def declarations : Stmt → List String
  | .declare name _ => [name]
  | .cond _ body | .loop _ body => bodyDeclarations body
  | .call _ _ | .assign _ _ | .leave | .suspend => []

/-- The names that several statements declare. -/
def bodyDeclarations : List Stmt → List String
  | [] => []
  | s :: body => s.declarations ++ bodyDeclarations body

end

mutual

/-- All that is wrong with a statement, given the names that are declared before it. -/
def violations (r : Registry) (declared : List String) : Stmt → List ScriptError
  | .call name args =>
    r.callViolations name args.length false ++ Expr.listViolations r declared args
  | .assign name value => value.violations r declared ++ useViolations declared name
  | .declare name initializer =>
    initializer.violations r declared ++
      if name ∈ declared then [.duplicateVariable name] else []
  | .cond condition body | .loop condition body =>
    condition.violations r declared ++ bodyViolations r declared body
  | .leave | .suspend => []

/-- All that is wrong with several statements. Each one sees what those before it declare. -/
def bodyViolations (r : Registry) (declared : List String) : List Stmt → List ScriptError
  | [] => []
  | s :: body =>
    s.violations r declared ++ bodyViolations r (declared ++ s.declarations) body

end

end Stmt

namespace Program

/-- The names that a program declares, in the order of the source. -/
def declarations (p : Program) : List String :=
  Stmt.bodyDeclarations p.statements

/-- All that is wrong with a program, in the order of the source. -/
def violations (p : Program) (r : Registry) : List ScriptError :=
  Stmt.bodyViolations r [] p.statements

end Program

/-! ### Failing with the first entry -/

/-- A calculation fails because of the first entry of a list, and succeeds if the list is empty. -/
inductive Reports {ε α : Type} (cause : ε → ScriptError) :
    List ScriptError → Except ε α → Prop where
  | ok (a : α) : Reports cause [] (.ok a)
  | error (e : ε) (rest : List ScriptError) : Reports cause (cause e :: rest) (.error e)

namespace Reports

variable {ε α β : Type} {cause : ε → ScriptError} {first second : List ScriptError}
  {x : Except ε α}

/-- The list of a calculation in two parts has the entries of the first part in front. -/
theorem bind {f : α → Except ε β} (h : Reports cause first x)
    (hf : ∀ a, x = .ok a → Reports cause second (f a)) :
    Reports cause (first ++ second) (x >>= f) := by
  cases h with
  | ok a => exact hf a rfl
  | error e rest => exact .error e (rest ++ second)

/-- A last part that cannot fail adds nothing to the list. -/
theorem map {f : α → β} (h : Reports cause first x) :
    Reports cause first (x >>= fun a => pure (f a)) := by
  cases h with
  | ok a => exact .ok (f a)
  | error e rest => exact .error e rest

/-- To note which jumps were forgotten does not change the reason of a failure. -/
theorem refuse {d : Draft} {x : Except ScriptError Draft} (h : Reports id first x) :
    Reports Refusal.error first (d.refuse x) := by
  cases h with
  | ok d' => exact .ok d'
  | error e rest => exact .error (Refusal.mk e d.superseded) rest

end Reports

namespace Draft

/-- A call is refused for the first thing that is wrong with it as such. -/
theorem reports_resolve (r : Registry) (name : String) (count : Nat) (value : Bool) :
    Reports id (r.callViolations name count value) (r.resolve name count value) := by
  unfold Registry.callViolations Registry.resolve
  cases r.find? name with
  | none => exact .error _ []
  | some b =>
    by_cases harity : b.arity = count
    · by_cases hvalue : (value && !b.returnsValue) = true
      · simp only [harity, hvalue, ne_eq, not_true_eq_false, if_true, if_false, List.nil_append]
        exact .error _ []
      · simp only [harity, hvalue, ne_eq, not_true_eq_false, if_true, if_false, List.nil_append,
          Bool.false_eq_true]
        exact .ok _
    · simp only [harity, ne_eq, not_false_eq_true, if_true, if_false]
      exact .error _ _

/-- The use of a variable is refused if the variable is not declared. -/
theorem reports_slot (d : Draft) (name : String) :
    Reports id (useViolations d.names name) (d.slot name) := by
  unfold useViolations slot
  cases hindex : d.names.idxOf? name with
  | none =>
    rw [if_neg (List.idxOf?_eq_none_iff.mp hindex)]
    exact .error _ []
  | some index =>
    rw [if_pos (idxOf?_eq_some.mp hindex).1]
    exact .ok index

/-- A declaration is refused if the name is taken. -/
theorem reports_declare (d : Draft) (name : String) :
    Reports id (if name ∈ d.names then [.duplicateVariable name] else []) (d.declare name) := by
  unfold declare
  by_cases hmem : name ∈ d.names
  · rw [if_pos hmem, if_pos (List.contains_iff_mem.mpr hmem)]
    exact .error _ []
  · rw [if_neg hmem, if_neg (mt List.contains_iff_mem.mp hmem)]
    exact .ok _

/-- An expression declares nothing. -/
theorem names_of_expression {r : Registry} {e : Expr} {d d' : Draft}
    (h : expression r e d = .ok d') : d'.names = d.names := by
  obtain ⟨rfl, -⟩ := expression_eq_ok e h
  rfl

mutual

/-- An expression is refused for the first thing that is wrong with it. -/
theorem reports_expression (r : Registry) : ∀ (e : Expr) (d : Draft),
    Reports id (e.violations r d.names) (expression r e d)
  | .number _, _ | .bool _, _ => .ok _
  | .variable name, d => (reports_slot d name).map
  | .binary left op right, d => by
    refine (reports_expression r left d).bind fun d₁ hleft => ?_
    rw [← names_of_expression hleft]
    exact (reports_expression r right d₁).map
  | .call name args, d =>
    (reports_resolve r name args.length true).bind fun _ _ => (reports_arguments r args d).map

/-- Arguments are refused for the first thing that is wrong with one of them. -/
theorem reports_arguments (r : Registry) : ∀ (es : List Expr) (d : Draft),
    Reports id (Expr.listViolations r d.names es) (arguments r es d)
  | [], _ => .ok _
  | e :: es, d => by
    refine (reports_expression r e d).bind fun d₁ hfirst => ?_
    rw [← names_of_expression hfirst]
    exact reports_arguments r es d₁

end

end Draft

/-! ### The names on the way -/

namespace Emits

variable {d d' : Draft} {body : List Stmt}

/-- A walk adds the declared names behind those that are there. -/
theorem names_eq (h : Emits d body d') : d'.names = d.names ++ Stmt.bodyDeclarations body := by
  induction h with
  | nil => exact (List.append_nil _).symm
  | call _ _ ih | assign _ _ ih | leave _ ih | suspend _ ih => exact ih
  | declare _ _ _ ih =>
    rw [ih]
    exact List.append_assoc _ _ _
  | cond _ _ _ ihWithin ih =>
    rw [ih, Stmt.bodyDeclarations, Stmt.declarations, ← List.append_assoc]
    exact congrArg (· ++ _) ihWithin
  | loop _ _ _ ihWithin ih =>
    rw [ih, Draft.names_endLoop, Stmt.bodyDeclarations, Stmt.declarations, ← List.append_assoc]
    exact congrArg (· ++ _) ihWithin

/-- No name is added twice. -/
theorem names_nodup (h : Emits d body d') (hnodup : d.names.Nodup) : d'.names.Nodup := by
  induction h with
  | nil => exact hnodup
  | call _ _ ih | assign _ _ ih | leave _ ih | suspend _ ih => exact ih hnodup
  | @declare d d' name initializer body _ fresh _ ih =>
    have hmore := hnodup.concat fresh
    rw [List.concat_eq_append] at hmore
    exact ih hmore
  | cond _ _ _ ihWithin ih => exact ih (ihWithin hnodup)
  | loop _ _ _ ihWithin ih =>
    refine ih ?_
    rw [Draft.names_endLoop]
    exact ihWithin hnodup

end Emits

/-! ### Whole programs -/

namespace Draft

/-- A statement that compiles adds the names that it declares, in their order. -/
theorem names_of_statement {r : Registry} {s : Stmt} {d d' : Draft}
    (h : statement r s d = .ok d') : d'.names = d.names ++ s.declarations := by
  rw [(emits_of_statement s h).names_eq, Stmt.bodyDeclarations, Stmt.bodyDeclarations,
    List.append_nil]

mutual

/-- A statement is refused for the first thing that is wrong with it or in it. -/
theorem reports_statement (r : Registry) : ∀ (s : Stmt) (d : Draft),
    Reports Refusal.error (s.violations r d.names) (statement r s d)
  | .call name args, d =>
    ((reports_resolve r name args.length false).bind fun _ _ =>
      (reports_arguments r args d).map).refuse
  | .assign name value, d => by
    refine ((reports_expression r value d).bind fun d₁ hvalue => ?_).refuse
    rw [← names_of_expression hvalue]
    exact (reports_slot d₁ name).map
  | .declare name initializer, d => by
    refine ((reports_expression r initializer d).bind fun d₁ hinitializer => ?_).refuse
    rw [← names_of_expression hinitializer]
    exact reports_declare d₁ name
  | .cond condition body, d | .loop condition body, d => by
    refine (reports_expression r condition d).refuse.bind fun d₁ hcondition => ?_
    rw [← names_of_expression (refuse_eq_ok.mp hcondition)]
    exact (reports_block r body (d₁.emit .branch)).map
  | .leave, _ | .suspend, _ => .ok _

/-- Statements are refused for the first thing that is wrong with one of them. -/
theorem reports_block (r : Registry) : ∀ (body : List Stmt) (d : Draft),
    Reports Refusal.error (Stmt.bodyViolations r d.names body) (block r body d)
  | [], _ => .ok _
  | s :: body, d => by
    refine (reports_statement r s d).bind fun d₁ hfirst => ?_
    rw [← names_of_statement hfirst]
    exact reports_block r body d₁

end

end Draft

/-- The position of a name in a list without repetitions is the one at which the list has it. -/
theorem idxOf?_eq_some_iff_of_nodup {names : List String} (h : names.Nodup) {name : String}
    {index : Nat} : names.idxOf? name = some index ↔ names[index]? = some name := by
  rw [idxOf?_eq_some]
  constructor
  · rintro ⟨hmem, rfl⟩
    exact List.getElem?_idxOf hmem
  · intro hget
    obtain ⟨hlt, rfl⟩ := List.getElem?_eq_some_iff.mp hget
    exact ⟨List.getElem_mem hlt, h.idxOf_getElem index hlt⟩

namespace Compiler

/-- The compiler after it was given some programs, one after the other. -/
def after (c : Compiler) (history : List Program) : Compiler :=
  history.foldl (fun c p => (c.compile p).2) c

/-- What a compiler that has compiled a program says about it: the slots of the function are the
positions of the declared names, one for each of them, and no other name has a slot. -/
structure Knows (c : Compiler) (p : Program) (f : Function) : Prop where
  nodup : p.declarations.Nodup
  localCount_eq : f.localCount = p.declarations.length
  slotOf?_eq_some_iff : ∀ name slot,
    c.slotOf? name = some slot ↔ p.declarations[slot]? = some name
  slotOf?_eq_none_iff : ∀ name, c.slotOf? name = none ↔ name ∉ p.declarations

/-- A compiler with the names of a finished walk knows the variables of the program. -/
theorem knows_of_block {r : Registry} {p : Program} {d : Draft}
    (h : Draft.block r p.statements {} = .ok d) {c : Compiler} (hnames : c.names = d.names) :
    c.Knows p d.function := by
  have hemits := Draft.emits_of_block p.statements h
  have hdeclared : d.names = p.declarations := hemits.names_eq
  have hnodup : p.declarations.Nodup := hdeclared ▸ hemits.names_nodup List.nodup_nil
  refine ⟨hnodup, congrArg List.length hdeclared, fun name slot => ?_, fun name => ?_⟩
  · rw [slotOf?, hnames, hdeclared]
    exact idxOf?_eq_some_iff_of_nodup hnodup
  · rw [slotOf?, hnames, hdeclared]
    exact List.idxOf?_eq_none_iff

/-- A compilation leaves nothing behind that a reset does not clear. -/
theorem reset_compile (c : Compiler) (p : Program) : (c.compile p).2.reset = c.reset := by
  unfold compile
  split <;> rfl

/-- However many programs were compiled, a reset leads back to the same compiler. -/
theorem reset_after (c : Compiler) (history : List Program) :
    (c.after history).reset = c.reset := by
  induction history generalizing c with
  | nil => rfl
  | cons p history ih => exact (ih _).trans (c.reset_compile p)

/-- What a compiler knows when it is given a program does not matter. -/
theorem compile_reset (c : Compiler) (p : Program) : c.reset.compile p = c.compile p :=
  rfl

/-- A compiler refuses a program for the first thing that is wrong with it, and compiles it if there
is nothing. What it was given before does not matter, and after a failure it knows nothing. -/
theorem compile_iff_violations (r : Registry) (history : List Program) (p : Program) :
    let c : Compiler := after { registry := r } history
    (∀ error, (c.compile p).1 = .error error ↔ (p.violations r).head? = some error) ∧
    (∀ error, (c.compile p).1 = .error error → (c.compile p).2 = { registry := r }) ∧
    ((∃ f, (c.compile p).1 = .ok f) ↔ p.violations r = []) ∧
    (∀ f, (c.compile p).1 = .ok f → (c.compile p).2.Knows p f) := by
  intro c
  have hsame : c.compile p = ({ registry := r } : Compiler).compile p := by
    rw [← compile_reset c, reset_after]
    rfl
  have hreports : Reports Refusal.error (p.violations r) (Draft.block r p.statements {}) :=
    Draft.reports_block r p.statements {}
  have hfresh : ({ registry := r } : Compiler).reset.draft = {} := rfl
  rw [hsame, compile, hfresh]
  generalize p.violations r = violations at hreports ⊢
  cases hblock : Draft.block r p.statements {} with
  | error refusal =>
    rw [hblock] at hreports
    cases hreports with
    | error _ rest => simp [reset]
  | ok d =>
    rw [hblock] at hreports
    cases hreports with
    | ok => simp [knows_of_block hblock]

end Compiler

/-- A program that calls what is not there, behind a declaration and a `break`. -/
def Program.misspelt : Program where
  statements := [.declare "on" (.bool true),
    .loop (.variable "on") [.leave, .call "Shout" [.variable "off"]]]

/-- A program that declares another variable. -/
def Program.corrected : Program where
  statements := [.declare "off" (.bool false), .assign "off" (.variable "off")]

/-- After a refusal the corrected program compiles, and the compiler knows its names and no others.
-/
theorem Compiler.compile_corrected :
    let c : Compiler := after { registry := {} } [.misspelt]
    (c.compile .misspelt).1 = .error (.unknownFunction "Shout") ∧
    (∃ f, (c.compile .corrected).1 = .ok f) ∧
    (c.compile .corrected).2.slotOf? "off" = some 0 ∧
    (c.compile .corrected).2.slotOf? "on" = none := by
  intro c
  obtain ⟨hrefuses, -, -, -⟩ := compile_iff_violations {} [.misspelt] .misspelt
  obtain ⟨-, -, hcompiles, hknows⟩ := compile_iff_violations {} [.misspelt] .corrected
  obtain ⟨f, hf⟩ := hcompiles.mpr rfl
  have hafter := hknows f hf
  exact ⟨(hrefuses _).mpr rfl, ⟨f, hf⟩, (hafter.slotOf?_eq_some_iff "off" 0).mpr rfl,
    (hafter.slotOf?_eq_none_iff "on").mpr (by decide)⟩

end FrameScript
