import FrameScript.Proofs.Machine.Protocol
import FrameScript.Proofs.Result

/-!
# What a fault leaves behind

A run that aborts leaves the machine at the instruction that failed. Values may have been popped,
and nothing else has changed. Only a call that wants a value has already added the output of its
builtin when it finds that there is none.
-/

namespace FrameScript

open Machine (faultOf)

/-! ### Builtins that fail -/

/-- If a builtin fails, it has added nothing to the output, and its error is its own. -/
def Action.FailsSilently (action : Action) : Prop :=
  ∀ output args output' error, action output args = (output', .error error) →
    output' = output ∧ ∀ name, faultOf error ≠ .noValue name

/-- All builtins add nothing to the output if they fail. -/
def Registry.FailsSilently (r : Registry) : Prop :=
  ∀ b ∈ r.builtins, b.action.FailsSilently

/-- A call by name that fails has added nothing to the output, and it fails for a reason of its own.
-/
theorem Registry.FailsSilently.call {r : Registry} (h : r.FailsSilently) {name : String}
    {output output' : Output} {args : List Value} {error : ScriptError}
    (hcall : r.call name output args = (output', .error error)) :
    output' = output ∧ ∀ name, faultOf error ≠ .noValue name := by
  unfold Registry.call at hcall
  split at hcall
  · cases hcall
    exact ⟨rfl, nofun⟩
  · next b hfind => exact h b (List.mem_of_find?_eq_some hfind) _ _ _ _ hcall

namespace Builtin

variable {name : String} {args : List Value} {position : Nat} {error : ScriptError}

/-- A number is taken from an argument that is there and is a number. -/
theorem numberArgument_eq_ok_iff {x : Float} :
    numberArgument name args position = .ok x ↔ args[position]? = some (.number x) := by
  unfold numberArgument
  split
  · next hnone => simp [hnone]
  · next value hvalue =>
    cases value <;> simp [hvalue, Value.number?]

/-- An argument that is missing or no number is not a missing result. -/
theorem numberArgument_plain (h : numberArgument name args position = .error error) :
    ∀ other, faultOf error ≠ .noValue other := by
  unfold numberArgument at h
  split at h
  · cases h
    nofun
  · split at h
    · cases h
      nofun
    · cases h

/-- A builtin that only computes a result fails silently. -/
theorem failsSilently_of_result {action : Action}
    {result : List Value → Except ScriptError (Option Value)}
    (h : ∀ output args, action output args = (output, result args))
    (hplain : ∀ args error, result args = .error error →
      ∀ name, faultOf error ≠ .noValue name) : action.FailsSilently := by
  intro output args output' error haction
  rw [h] at haction
  obtain ⟨houtput, hresult⟩ := Prod.mk.inj haction
  exact ⟨houtput.symm, hplain args error hresult⟩

/-- A function of one number fails silently. -/
theorem unary_failsSilently (name : String) (f : Float → Float) :
    (unary name f).action.FailsSilently := by
  refine failsSilently_of_result (fun _ _ => rfl) fun args error h => ?_
  rcases bind_eq_error.mp h with h | ⟨x, -, h⟩
  · exact numberArgument_plain h
  · cases h

/-- A function of two numbers fails silently. -/
theorem binary_failsSilently (name : String) (f : Float → Float → Float) :
    (binary name f).action.FailsSilently := by
  refine failsSilently_of_result (fun _ _ => rfl) fun args error h => ?_
  rcases bind_eq_error.mp h with h | ⟨x, -, h⟩
  · exact numberArgument_plain h
  · rcases bind_eq_error.mp h with h | ⟨y, -, h⟩
    · exact numberArgument_plain h
    · cases h

/-- `Print` fails silently, namely without an argument. -/
theorem print_failsSilently : print.action.FailsSilently := by
  rintro output (_ | ⟨value, args⟩) output' error h
  · cases h
    exact ⟨rfl, nofun⟩
  · cases h

/-- The error of a triangle is that of one of its six arguments. -/
theorem exists_of_triangleOf_error (h : triangleOf args = .error error) :
    ∃ position, numberArgument "DrawTriangle" args position = .error error := by
  simp only [triangleOf, bind_eq_error] at h
  rcases h with h | ⟨_, -, h | ⟨_, -, h | ⟨_, -, h | ⟨_, -, h | ⟨_, -, h | ⟨_, -, h⟩⟩⟩⟩⟩⟩
  · exact ⟨0, h⟩
  · exact ⟨1, h⟩
  · exact ⟨2, h⟩
  · exact ⟨3, h⟩
  · exact ⟨4, h⟩
  · exact ⟨5, h⟩
  · cases h

/-- A triangle needs six numbers. -/
theorem number_of_triangleOf {triangle : Triangle} (h : triangleOf args = .ok triangle)
    (hlt : position < 6) : ∃ x, args[position]? = some (.number x) := by
  simp only [triangleOf, bind_eq_ok, numberArgument_eq_ok_iff] at h
  obtain ⟨x, hx, y, hy, radius, hradius, red, hred, green, hgreen, blue, hblue, -⟩ := h
  have hposition : position = 0 ∨ position = 1 ∨ position = 2 ∨ position = 3 ∨ position = 4 ∨
      position = 5 := by omega
  rcases hposition with rfl | rfl | rfl | rfl | rfl | rfl
  · exact ⟨x, hx⟩
  · exact ⟨y, hy⟩
  · exact ⟨radius, hradius⟩
  · exact ⟨red, hred⟩
  · exact ⟨green, hgreen⟩
  · exact ⟨blue, hblue⟩

/-- `DrawTriangle` fails silently, namely at the first wrong argument. -/
theorem drawTriangle_failsSilently : drawTriangle.action.FailsSilently := by
  intro output args output' error h
  simp only [drawTriangle] at h
  split at h
  · next cause hcause =>
    cases h
    obtain ⟨position, hposition⟩ := exists_of_triangleOf_error hcause
    exact ⟨rfl, numberArgument_plain hposition⟩
  · cases h

/-- The standard builtins fail silently. -/
theorem failsSilently_of_mem_standard {b : Builtin} (h : b ∈ standard) :
    b.action.FailsSilently := by
  simp only [standard, List.mem_cons, List.not_mem_nil, or_false] at h
  rcases h with rfl | rfl | rfl | rfl | rfl | rfl | rfl
  · exact print_failsSilently
  · exact drawTriangle_failsSilently
  · exact unary_failsSilently _ _
  · exact unary_failsSilently _ _
  all_goals exact binary_failsSilently _ _

end Builtin

/-- The standard builtins add nothing to the output if they fail. -/
theorem Registry.standard_failsSilently : Registry.standard.FailsSilently :=
  fun _ hb => Builtin.failsSilently_of_mem_standard (mem_standard hb)

/-- A triangle that lacks a number is not drawn. -/
theorem Registry.exists_drawTriangle_error {args : List Value}
    (h : ∃ position < 6, ∀ x, args[position]? ≠ some (.number x)) :
    ∃ error, ∀ output,
      Registry.standard.call "DrawTriangle" output args = (output, .error error) := by
  obtain ⟨position, hlt, hnone⟩ := h
  cases htriangle : Builtin.triangleOf args with
  | ok triangle =>
    obtain ⟨x, hx⟩ := Builtin.number_of_triangleOf htriangle hlt
    exact absurd hx (hnone x)
  | error error =>
    refine ⟨error, fun output => ?_⟩
    have hfind : Registry.standard.find? "DrawTriangle" = some Builtin.drawTriangle := rfl
    rw [call, hfind]
    simp only [Builtin.drawTriangle, htriangle]

namespace Machine

/-! ### Runs that abort -/

variable {m m' : Machine} {r : Registry} {fault : Fault} {call : Call} {fuel : Nat}

/-- What a fault makes of a machine that was about to carry out the failing instruction. -/
structure FailsCleanly (r : Registry) (m : Machine) (fault : Fault) (m' : Machine) : Prop where
  aborts : ∃ m₁, m.step r = .abort m₁ fault
  status_eq : m'.status = .finished
  function_eq : m'.function = m.function
  ip_eq : m'.ip = m.ip
  locals_eq : m'.locals = m.locals
  /-- Values may have been popped, and none was pushed. The stack has its top first. -/
  stack_suffix : m'.stack <:+ m.stack
  output_eq (other : ∀ name, fault ≠ .noValue name) : m'.output = m.output
  /-- A call wanted a value, and its builtin returned none. What this builtin adds to any output is
  all that was added. -/
  output_eq_append {name : String} (noValue : fault = .noValue name) :
    ∃ site b piece, m.function.instructions[m.ip]? = some ⟨.call, .callee site⟩ ∧
      site.name = name ∧ site.producesValue = true ∧ r.find? name = some b ∧
      site.arity ≤ m.stack.length ∧
      (∀ output, b.action output (m.stack.take site.arity).reverse = (output ++ piece, .ok none)) ∧
      m'.output = m.output ++ piece

/-- What an instruction leaves when it aborts, if builtins only append and fail silently. -/
theorem Aborts.failsCleanly {i : Instruction} (h : m.Aborts r i m' fault)
    (hi : m.function.instructions[m.ip]? = some i) (hstep : m.step r = .abort m' fault)
    (happends : r.OnlyAppends) (hsilent : r.FailsSilently) :
    FailsCleanly r m fault { m' with status := .finished } := by
  have haborts : ∃ m₁, m.step r = .abort m₁ fault := ⟨m', hstep⟩
  cases h with
  | popped suffix ne_noValue =>
    exact ⟨haborts, rfl, rfl, rfl, rfl, suffix, fun _ => rfl, fun h => absurd h (ne_noValue _)⟩
  | failed _ _ answer =>
    obtain ⟨rfl, hplain⟩ := hsilent.call answer
    exact ⟨haborts, rfl, rfl, rfl, rfl, List.drop_suffix _ _, fun _ => rfl,
      fun h => absurd h (hplain _)⟩
  | @noValue site output instruction_eq producesValue enough answer =>
    refine ⟨haborts, rfl, rfl, rfl, rfl, List.drop_suffix _ _, fun h => absurd rfl (h _), ?_⟩
    intro name hname
    cases hname
    cases hfind : r.find? site.name with
    | none => simp [Registry.call, hfind] at answer
    | some b =>
      obtain ⟨piece, result, haction⟩ :=
        happends b (List.mem_of_find?_eq_some hfind) (m.stack.take site.arity).reverse
      have hanswer : (m.output ++ piece, result) = (output, .ok none) := by
        rw [← answer, Registry.call, hfind]
        exact (haction m.output).symm
      cases hanswer
      exact ⟨site, b, piece, instruction_eq ▸ hi, rfl, producesValue, rfl, enough, haction, rfl⟩

/-- A step that aborts leaves the machine as the failing instruction found it, but for the values
that were popped. -/
theorem failsCleanly_of_step (hstep : m.step r = .abort m' fault) (happends : r.OnlyAppends)
    (hsilent : r.FailsSilently) : FailsCleanly r m fault { m' with status := .finished } := by
  rcases aborts_of_step hstep with ⟨rfl, rfl⟩ | ⟨i, hi, haborts⟩
  · exact ⟨⟨_, hstep⟩, rfl, rfl, rfl, rfl, List.suffix_rfl, fun _ => rfl, nofun⟩
  · exact haborts.failsCleanly hi hstep happends hsilent

/-- A call that aborts has come to an instruction that does. -/
theorem exists_of_answer (h : m.answer r fuel call = some (.error fault, m')) :
    ∃ n m₁ m₂, Steps r n (m.begun call) m₁ ∧ m₁.step r = .abort m₂ fault ∧
      m' = { m₂ with status := .finished } := by
  have hruns : ¬ (call = .resume ∧ (m.status = .idle ∨ m.status = .finished)) := by
    rintro ⟨rfl, hrests⟩
    rw [answer, resume_of_rests hrests] at h
    cases h
  rw [answer_eq_execute hruns] at h
  obtain ⟨n, m₁, hsteps, hends⟩ := exists_of_execute h
  cases hends with
  | abort hstep => exact ⟨n, m₁, _, hsteps, hstep, rfl⟩

/-- With the standard builtins, a call that aborts has come to an instruction that fails, and leaves
the machine there as it was, but for the values that were popped. A triangle is not drawn unless all
its arguments are there and are numbers. -/
theorem failsCleanly_of_answer :
    (∀ {m m' : Machine} {call : Call} {fuel : Nat} {fault : Fault},
      m.answer .standard fuel call = some (.error fault, m') →
      ∃ n m₁, Steps .standard n (m.begun call) m₁ ∧ FailsCleanly .standard m₁ fault m') ∧
    ∀ {m : Machine} {site : CallSite},
      m.function.instructions[m.ip]? = some ⟨.call, .callee site⟩ → site.name = "DrawTriangle" →
      (∃ position < 6, ∀ x, (m.stack.take site.arity).reverse[position]? ≠ some (.number x)) →
      ∃ fault m', m.step .standard = .abort m' fault ∧ m'.output = m.output := by
  constructor
  · intro m m' call fuel fault h
    obtain ⟨n, m₁, m₂, hsteps, hstep, rfl⟩ := exists_of_answer h
    have happends := Registry.standard_onlyAppends
    exact ⟨n, m₁, hsteps, failsCleanly_of_step hstep happends Registry.standard_failsSilently⟩
  · intro m site hi hname hargs
    obtain ⟨error, herror⟩ := Registry.exists_drawTriangle_error hargs
    have hperform : m.perform .standard ⟨.call, .callee site⟩ = m.call .standard site := rfl
    rw [step_eq hi, hperform]
    by_cases hlow : m.stack.length < site.arity
    · refine ⟨.callUnderflow site.name, m, ?_, rfl⟩
      rw [Machine.call, if_pos hlow]
    · refine ⟨faultOf error, _, call_error (Nat.le_of_not_lt hlow) ?_, rfl⟩
      rw [hname]
      exact herror m.output

/-- Code that wants a value of a builtin that only prints. -/
def printedValue : Function where
  instructions := #[⟨.constBool, .bool true⟩, ⟨.call, .callee ⟨"Print", 1, true⟩⟩]

/-- A machine that is about to draw a triangle of truth values. -/
def truthTriangle : Machine where
  function := { instructions := #[⟨.call, .callee ⟨"DrawTriangle", 6, false⟩⟩] }
  stack := List.replicate 6 (.bool true)

/-- A value is wanted that `Print` does not return, and a triangle is wanted of truth values. -/
theorem failsCleanly_printedValue :
    let m : Machine :=
      { function := printedValue, ip := 1, status := .finished, output := { console := #["true"] } }
    answer {} .standard 2 (.run printedValue) = some (.error (.noValue "Print"), m) ∧
    (∃ n m₁, Steps .standard n (begun {} (.run printedValue)) m₁ ∧
      FailsCleanly .standard m₁ (.noValue "Print") m) ∧
    ∃ fault m', truthTriangle.step .standard = .abort m' fault ∧ m'.output = {} := by
  intro m
  have hanswer : answer {} .standard 2 (.run printedValue) =
      some (.error (.noValue "Print"), m) := rfl
  obtain ⟨hruns, hdraws⟩ := failsCleanly_of_answer
  refine ⟨hanswer, hruns hanswer, hdraws (m := truthTriangle) rfl rfl ⟨0, by decide, fun x => ?_⟩⟩
  simp [truthTriangle]

end Machine

end FrameScript
