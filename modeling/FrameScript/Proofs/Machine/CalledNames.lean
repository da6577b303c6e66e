import FrameScript.Proofs.Compiler.Shape
import FrameScript.Proofs.Machine.Cooperation

/-!
# What a script needs of a registry

A script names the builtins that it calls. Its compilation and its runs look up these names and no
others, so a script cannot tell two registries apart that offer the same under them. Builtins with
other names may be added at any time and in any order.
-/

namespace FrameScript

/-! ### Registries that agree on a name -/

namespace Registry

variable {r r' : Registry} {name : String} {b : Builtin} {bs : List Builtin}

/-- Two registries offer the same under a name: nothing at all, or builtins that take equally many
arguments, declare the same about a result and do the same. -/
inductive Agree (r r' : Registry) (name : String) : Prop where
  | missing (left : r.find? name = none) (right : r'.find? name = none) : Agree r r' name
  | offered {b b' : Builtin} (left : r.find? name = some b) (right : r'.find? name = some b')
    (arity_eq : b.arity = b'.arity) (returnsValue_eq : b.returnsValue = b'.returnsValue)
    (action_eq : b.action = b'.action) : Agree r r' name

/-- A builtin that is found has the name that was looked up, so nothing is left to differ. -/
theorem Agree.find?_eq (h : r.Agree r' name) : r.find? name = r'.find? name := by
  cases h with
  | missing left right => rw [left, right]
  | @offered b b' left right harity hreturns haction =>
    have hname : b.name = b'.name := (name_of_find? left).trans (name_of_find? right).symm
    have hsame : b = b' := by
      cases b
      cases b'
      simp_all
    rw [left, right, hsame]

/-- Registries in which a name stands for the same builtin agree on it. -/
theorem agree_of_find?_eq (h : r.find? name = r'.find? name) : r.Agree r' name := by
  cases hfind : r.find? name with
  | none => exact .missing hfind (h ▸ hfind)
  | some b => exact .offered hfind (h ▸ hfind) rfl rfl rfl

/-- A builtin with another name does not change what a name stands for. -/
theorem find?_register_of_ne (h : b.name ≠ name) : (r.register b).find? name = r.find? name := by
  simp only [register, find?]
  rw [List.find?_cons_of_neg (by simpa using h), List.find?_filter]
  congr 1
  funext other
  by_cases hother : other.name = name
  · simp [hother, h.symm]
  · simp [hother]

/-- Builtins with other names, registered in any order, do not change what a name stands for. -/
theorem find?_foldl_register (h : ∀ b ∈ bs, b.name ≠ name) :
    (bs.foldl register r).find? name = r.find? name := by
  induction bs generalizing r with
  | nil => rfl
  | cons b bs ih =>
    rw [List.foldl_cons, ih fun other hother => h other (List.mem_cons_of_mem _ hother)]
    exact find?_register_of_ne (h b List.mem_cons_self)

end Registry

/-! ### The names that a script calls -/

/-- The name that an expression calls at its root. -/
def Expr.callee? : Expr → Option String
  | .call name _ => some name
  | .number _ | .bool _ | .variable _ | .binary _ _ _ => none

/-- The name that a statement calls itself, apart from the expressions in it. -/
def Stmt.callee? : Stmt → Option String
  | .call name _ => some name
  | .assign _ _ | .declare _ _ | .cond _ _ | .loop _ _ | .leave | .suspend => none

/-- The names that a program calls, in expressions and as statements. -/
def Program.called (p : Program) : List String :=
  p.expressionPlaces.filterMap (·.2.callee?) ++ p.places.filterMap (·.2.callee?)

/-- What a call in an expression names is among the called names. -/
theorem Program.mem_called_of_expression {p : Program} {index : Nat} {name : String}
    {args : List Expr} (h : (index, .call name args) ∈ p.expressionPlaces) : name ∈ p.called :=
  List.mem_append_left _ (List.mem_filterMap.mpr ⟨_, h, rfl⟩)

/-- What a call that is a statement names is among the called names. -/
theorem Program.mem_called_of_statement {p : Program} {index : Nat} {name : String}
    {args : List Expr} (h : (index, .call name args) ∈ p.places) : name ∈ p.called :=
  List.mem_append_right _ (List.mem_filterMap.mpr ⟨_, h, rfl⟩)

/-! ### Compilation -/

namespace Draft

variable {r r' : Registry}

/-- A call resolves alike where its name stands for the same. -/
theorem resolve_congr {name : String} (h : r.find? name = r'.find? name) (count : Nat)
    (value : Bool) : r.resolve name count value = r'.resolve name count value := by
  rw [Registry.resolve, Registry.resolve, h]

mutual

/-- An expression compiles alike where all names that it calls stand for the same. -/
theorem expression_congr : ∀ (e : Expr) {start : Nat},
    (∀ place ∈ e.places start, ∀ name ∈ place.2.callee?, r.find? name = r'.find? name) →
    ∀ d, expression r e d = expression r' e d
  | .number _, _, _, _ | .bool _, _, _, _ | .variable _, _, _, _ => rfl
  | .binary left op right, start, h, d => by
    have hleft := expression_congr left fun place hplace =>
      h place (List.mem_cons_of_mem _ (List.mem_append_left _ hplace))
    have hright := expression_congr right fun place hplace =>
      h place (List.mem_cons_of_mem _ (List.mem_append_right _ hplace))
    simp only [expression, hleft, hright]
  | .call name args, start, h, d => by
    have hname := h (start, .call name args) List.mem_cons_self name rfl
    have hargs := arguments_congr args fun place hplace => h place (List.mem_cons_of_mem _ hplace)
    simp only [expression, resolve_congr hname, hargs]

/-- Compiling arguments looks up only the names that are called in them. -/
theorem arguments_congr : ∀ (es : List Expr) {start : Nat},
    (∀ place ∈ Expr.listPlaces start es, ∀ name ∈ place.2.callee?,
      r.find? name = r'.find? name) →
    ∀ d, arguments r es d = arguments r' es d
  | [], _, _, _ => rfl
  | e :: es, start, h, d => by
    have hfirst := expression_congr e fun place hplace => h place (List.mem_append_left _ hplace)
    have hrest := arguments_congr es fun place hplace => h place (List.mem_append_right _ hplace)
    simp only [arguments, hfirst, hrest]

end

mutual

/-- A statement compiles alike where all names that are called in it stand for the same. -/
theorem statement_congr : ∀ (s : Stmt) {start : Nat},
    (∀ place ∈ s.expressionPlaces start, ∀ name ∈ place.2.callee?,
      r.find? name = r'.find? name) →
    (∀ place ∈ s.places start, ∀ name ∈ place.2.callee?, r.find? name = r'.find? name) →
    ∀ d, statement r s d = statement r' s d
  | .call name args, start, hes, hss, d => by
    have hname := hss (start, .call name args) List.mem_cons_self name rfl
    simp only [statement, callStatement, resolve_congr hname, arguments_congr args hes]
  | .assign _ value, _, hes, _, d | .declare _ value, _, hes, _, d => by
    simp only [statement, expression_congr value hes]
  | .cond condition body, _, hes, hss, d | .loop condition body, _, hes, hss, d => by
    have hcondition := expression_congr condition fun place hplace =>
      hes place (List.mem_append_left _ hplace)
    have hbody := block_congr body (fun place hplace => hes place (List.mem_append_right _ hplace))
      fun place hplace => hss place (List.mem_cons_of_mem _ hplace)
    simp only [statement, hcondition, hbody]
  | .leave, _, _, _, _ | .suspend, _, _, _, _ => rfl

/-- Compiling statements looks up only the names that are called in them. -/
theorem block_congr : ∀ (body : List Stmt) {start : Nat},
    (∀ place ∈ Stmt.bodyExpressionPlaces start body, ∀ name ∈ place.2.callee?,
      r.find? name = r'.find? name) →
    (∀ place ∈ Stmt.bodyPlaces start body, ∀ name ∈ place.2.callee?,
      r.find? name = r'.find? name) →
    ∀ d, block r body d = block r' body d
  | [], _, _, _, _ => rfl
  | s :: body, _, hes, hss, d => by
    have hfirst := statement_congr s (fun place hplace => hes place (List.mem_append_left _ hplace))
      fun place hplace => hss place (List.mem_append_left _ hplace)
    have hrest := block_congr body (fun place hplace => hes place (List.mem_append_right _ hplace))
      fun place hplace => hss place (List.mem_append_right _ hplace)
    simp only [block, hfirst, hrest]

end

end Draft

section

variable {p : Program} {r r' : Registry}

/-- A program compiles alike where all names that it calls stand for the same. -/
theorem Program.compile_congr (h : ∀ name ∈ p.called, r.find? name = r'.find? name) :
    p.compile r = p.compile r' := by
  have hblock : ∀ d, Draft.block r p.statements d = Draft.block r' p.statements d := by
    refine @Draft.block_congr r r' p.statements 0 ?_ ?_
    · intro place hplace name hname
      exact h name (List.mem_append_left _ (List.mem_filterMap.mpr ⟨place, hplace, hname⟩))
    · intro place hplace name hname
      exact h name (List.mem_append_right _ (List.mem_filterMap.mpr ⟨place, hplace, hname⟩))
  rw [compile, compile, compilation, compilation, hblock]

/-- The calls in the code are those of the program. -/
theorem Compiled.callee_mem_called {names : List String} {f : Function} (h : Compiled p names f)
    (hsound : p.violations r = []) {index : Nat} {site : CallSite}
    (hi : f.instructions[index]? = some ⟨.call, .callee site⟩) : site.name ∈ p.called := by
  obtain ⟨-, start, args, -, ⟨-, hplace, -⟩ | ⟨-, hplace, -⟩⟩ := h.call_cases hsound hi
  · exact p.mem_called_of_expression hplace
  · exact p.mem_called_of_statement hplace

/-- A program that compiles finds every name that it calls. -/
theorem Compiled.exists_find? {names : List String} {f : Function} (h : Compiled p names f)
    (hsound : p.violations r = []) {name : String} (hname : name ∈ p.called) :
    ∃ b, r.find? name = some b := by
  rcases List.mem_append.mp hname with hname | hname
  · obtain ⟨⟨start, e⟩, hplace, hcallee⟩ := List.mem_filterMap.mp hname
    cases e with
    | call callee args =>
      cases hcallee
      have hi := (h.value_call_iff hsound).mpr ⟨start, args, hplace, rfl, rfl⟩
      obtain ⟨b, hfind, -⟩ := h.registered hsound hi
      exact ⟨b, hfind⟩
    | number | bool | «variable» | binary => cases hcallee
  · obtain ⟨⟨start, s⟩, hplace, hcallee⟩ := List.mem_filterMap.mp hname
    cases s with
    | call callee args =>
      cases hcallee
      have hi := (h.effect_call_iff hsound).mpr ⟨start, args, hplace, rfl, rfl⟩
      obtain ⟨b, hfind, -⟩ := h.registered hsound hi
      exact ⟨b, hfind⟩
    | assign | declare | cond | loop | leave | suspend => cases hcallee

end

/-! ### Runs -/

namespace Machine

variable {r r' : Registry} {f : Function} {m : Machine} {i : Instruction}

/-- A call does the same where its name stands for the same. -/
theorem call_congr {site : CallSite} (h : r.find? site.name = r'.find? site.name) :
    m.call r site = m.call r' site := by
  have hcall (output : Output) (args : List Value) :
      r.call site.name output args = r'.call site.name output args := by
    rw [Registry.call, Registry.call, h]
  simp only [call, hcall]

/-- An instruction looks up nothing, unless it is a call. -/
theorem perform_congr (h : ∀ site, i = ⟨.call, .callee site⟩ →
    r.find? site.name = r'.find? site.name) : m.perform r i = m.perform r' i := by
  obtain ⟨op, operand⟩ := i
  cases op with
  | call =>
    cases operand with
    | callee site => exact call_congr (h site rfl)
    | absent | jump | slot | number | bool => rfl
  | add | sub | mul | div | less | greater | constNumber | constBool | setLocal | getLocal | branch
  | goto | suspend | finish => rfl

end Machine

/-- All names that a function calls stand for the same in two registries. -/
def Function.CallsAlike (f : Function) (r r' : Registry) : Prop :=
  ∀ (index : Nat) (site : CallSite), f.instructions[index]? = some ⟨.call, .callee site⟩ →
    r.find? site.name = r'.find? site.name

namespace Machine

variable {r r' : Registry} {f : Function} {m : Machine} {fuel n : Nat}

/-- A step does the same where all names that the function calls stand for the same. -/
theorem step_congr (h : f.CallsAlike r r') (hm : m.function = f) : m.step r = m.step r' := by
  cases hi : m.function.instructions[m.ip]? with
  | none => rw [step, step, hi]
  | some i =>
    rw [step_eq hi, step_eq hi]
    apply perform_congr
    intro site hsite
    subst hsite
    rw [hm] at hi
    exact h m.ip site hi

/-- A call of the machine does the same where all names that the function calls stand for the same.
-/
theorem execute_congr (h : f.CallsAlike r r') (hm : m.function = f) :
    execute r fuel m = execute r' fuel m := by
  induction fuel generalizing m with
  | zero => rfl
  | succ fuel ih =>
    rw [execute, execute, ← step_congr h hm]
    cases hstep : m.step r with
    | next m' =>
      have hsteps : Steps r 1 m m' := .single hstep
      exact ih (hsteps.function_eq.trans hm)
    | stop m' => rfl
    | abort m' fault => rfl

/-- A machine in a function goes on alike. -/
theorem Loaded.resume_congr (h : f.CallsAlike r r') (hm : m.Loaded f) :
    m.resume r fuel = m.resume r' fuel := by
  rcases hm with hfinished | hfunction
  · rw [resume_of_rests (.inr hfinished), resume_of_rests (.inr hfinished)]
  · unfold resume
    cases m.status with
    | idle | finished => rfl
    | running | suspended => exact execute_congr h hfunction

/-- Between the calls of a run, a machine is finished or still in its function. -/
theorem loaded_of_nthStop? {stop : Stop} (h : m.nthStop? r fuel f n = some stop) :
    stop.2.Loaded f := by
  induction n generalizing stop with
  | zero => exact loaded_of_run h
  | succ n ih =>
    obtain ⟨before, hbefore, hresume⟩ := Option.bind_eq_some_iff.mp h
    exact (ih hbefore).of_resume hresume

end Machine

/-- A function does the same with two registries: the first call of a run, a call that goes on in
the function, whatever a host has done to the machine in the meantime, and every call of a run. -/
structure Function.RunsAlike (f : Function) (r r' : Registry) : Prop where
  run_eq (m : Machine) (fuel : Nat) : m.run r fuel f = m.run r' fuel f
  resume_eq {m : Machine} (function_eq : m.function = f) (fuel : Nat) :
    m.resume r fuel = m.resume r' fuel
  nthStop?_eq (m : Machine) (fuel n : Nat) : m.nthStop? r fuel f n = m.nthStop? r' fuel f n

/-- A function whose calls stand for the same runs alike. -/
theorem Function.CallsAlike.runsAlike {f : Function} {r r' : Registry} (h : f.CallsAlike r r') :
    f.RunsAlike r r' where
  run_eq m fuel := Machine.execute_congr h rfl
  resume_eq function_eq fuel := Machine.Loaded.resume_congr h (.inr function_eq)
  nthStop?_eq m fuel n := by
    induction n with
    | zero => exact Machine.execute_congr h rfl
    | succ n ih =>
      rw [Machine.nthStop?, Machine.nthStop?, ← ih]
      cases hstop : m.nthStop? r fuel f n with
      | none => rfl
      | some stop => exact (Machine.loaded_of_nthStop? hstop).resume_congr h

/-- A compiled program runs alike where all names that it calls stand for the same. -/
theorem Program.runsAlike_of_compile {p : Program} {r₁ r r' : Registry} {f : Function}
    (hcompile : p.compile r₁ = .ok f) (h : ∀ name ∈ p.called, r.find? name = r'.find? name) :
    f.RunsAlike r r' := by
  obtain ⟨d, hblock, rfl⟩ := compile_eq_ok.mp hcompile
  have hcompiled := compiled_of_block hblock
  have hsound := violations_eq_nil_of_block hblock
  apply Function.CallsAlike.runsAlike
  intro index site hi
  exact h site.name (hcompiled.callee_mem_called hsound hi)

/-- A script depends only on the builtins that it names. With two registries that agree on these it
is refused for the same reason or becomes the same function, and this function comes to the same
stops. So nothing changes when builtins are registered that it does not call, or, once it compiles,
any builtins under new names. -/
theorem Program.depends_on_called (p : Program) (r : Registry) :
    (∀ r', (∀ name ∈ p.called, r.Agree r' name) →
      p.compile r = p.compile r' ∧ ∀ f, p.compile r = .ok f → f.RunsAlike r r') ∧
    (∀ bs : List Builtin, (∀ b ∈ bs, b.name ∉ p.called) →
      p.compile r = p.compile (bs.foldl .register r) ∧
      ∀ f, p.compile r = .ok f → f.RunsAlike r (bs.foldl .register r)) ∧
    (∀ (bs : List Builtin) (f : Function), p.compile r = .ok f →
      (∀ b ∈ bs, r.find? b.name = none) →
      p.compile (bs.foldl .register r) = .ok f ∧ f.RunsAlike r (bs.foldl .register r)) := by
  refine ⟨fun r' hagree => ?_, fun bs hbs => ?_, fun bs f hcompile hbs => ?_⟩
  · have hsame : ∀ name ∈ p.called, r.find? name = r'.find? name :=
      fun name hname => (hagree name hname).find?_eq
    exact ⟨compile_congr hsame, fun f hf => runsAlike_of_compile hf hsame⟩
  · have hsame : ∀ name ∈ p.called, r.find? name = (bs.foldl .register r).find? name := by
      intro name hname
      refine (Registry.find?_foldl_register fun b hb heq => hbs b hb ?_).symm
      rwa [heq]
    exact ⟨compile_congr hsame, fun f hf => runsAlike_of_compile hf hsame⟩
  · have hsame : ∀ name ∈ p.called, r.find? name = (bs.foldl .register r).find? name := by
      intro name hname
      obtain ⟨d, hblock, rfl⟩ := compile_eq_ok.mp hcompile
      obtain ⟨b, hfind⟩ := (compiled_of_block hblock).exists_find?
        (violations_eq_nil_of_block hblock) hname
      refine (Registry.find?_foldl_register fun other hother heq => ?_).symm
      have hnone := hbs other hother
      rw [heq, hfind] at hnone
      cases hnone
    rw [← compile_congr hsame]
    exact ⟨hcompile, runsAlike_of_compile hcompile hsame⟩

/-- A script that prints an absolute value. -/
def Program.magnitude : Program where
  statements := [.call "Print" [.call "Abs" [.number 1]]]

/-- A registry with just the two builtins that are needed to print an absolute value. -/
def Registry.narrow : Registry where
  builtins := [Builtin.unary "Abs" Float.abs, Builtin.print]

/-- The absolute value is printed alike with all builtins, with the two that it takes, and with
others beside them. -/
theorem Program.depends_on_called_magnitude :
    (∀ name ∈ magnitude.called, Registry.standard.Agree .narrow name) ∧
    ∃ f, magnitude.compile .standard = .ok f ∧ magnitude.compile .narrow = .ok f ∧
      f.RunsAlike .standard .narrow ∧
      magnitude.compile (Registry.standard.register (Builtin.unary "Sin" Float.sin)) = .ok f ∧
      f.RunsAlike .narrow (Registry.narrow.register (Builtin.unary "Sqrt" Float.sqrt)) := by
  have hagree : ∀ name ∈ magnitude.called, Registry.standard.Agree .narrow name := by
    have hcalled : magnitude.called = ["Abs", "Print"] := rfl
    rw [hcalled]
    intro name hname
    simp only [List.mem_cons, List.not_mem_nil, or_false] at hname
    rcases hname with rfl | rfl
    · exact Registry.agree_of_find?_eq rfl
    · exact Registry.agree_of_find?_eq rfl
  obtain ⟨f, hcompile⟩ : ∃ f, magnitude.compile .standard = .ok f := ⟨_, rfl⟩
  obtain ⟨hagreeing, -, hnew⟩ := depends_on_called magnitude .standard
  obtain ⟨hsame, halike⟩ := hagreeing .narrow hagree
  obtain ⟨-, hother, -⟩ := depends_on_called magnitude .narrow
  have hnarrow : magnitude.compile .narrow = .ok f := hsame.symm.trans hcompile
  have hmore := (hnew [Builtin.unary "Sin" Float.sin] f hcompile (by decide)).1
  have hsqrt := (hother [Builtin.unary "Sqrt" Float.sqrt] (by decide)).2 f hnarrow
  exact ⟨hagree, f, hcompile, hnarrow, halike f hcompile, hmore, hsqrt⟩

end FrameScript
