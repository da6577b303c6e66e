import FrameScript.Proofs.Compiler.Walk

/-!
# What compilation emits

Read backwards from its last draft, finished code holds the code of the whole tree, and the jump of
each `break` in it was aimed by the event that follows it in the walk.
-/

namespace FrameScript

/-- The operand of the instruction at an index. -/
def operandAt (code : Array Instruction) (i : Nat) : Operand :=
  (code[i]?.map (·.operand)).getD .absent

/-- Finished code agrees with a draft and holds the code of the statements that come next, with the
operands that the events give to the jumps of `break` statements. -/
structure Draft.Laid (code : Array Instruction) (stays : Nat → Prop) (events : List Event)
    (names : List String) (d : Draft) (body : List Stmt) : Prop where
  fixed : d.Fixed code stays
  foretold : d.Foretold code (Stmt.bodyEvents d.here body ++ events)
  codeAt : CodeAt code d.here (Stmt.bodyCode names (operandAt code) d.here body)

namespace Draft.Laid

variable {code : Array Instruction} {stays : Nat → Prop} {events : List Event}
  {names : List String} {d d₁ : Draft} {s : Stmt} {body inner : List Stmt} {op : Opcode}
  {operand : Operand} {part : List Instruction}

/-- A statement without a body adds straight code. -/
theorem cons_plain (h : ((d.extend part).emit op operand).Laid code stays events names body)
    (hw : d.Waiting) (hopen : d.Open stays) (hevents : s.events d.here = [])
    (hcode : s.code names (operandAt code) d.here = part ++ [⟨op, operand⟩]) :
    d.Laid code stays events names (s :: body) := by
  obtain ⟨hfixed, hforetold, hrest⟩ := h
  have hsize : s.size = part.length + 1 := by
    rw [← Stmt.length_code names (operandAt code) d.here s, hcode, List.length_append,
      List.length_singleton]
  have hpart := hfixed.of_emit.extended hw fun k _ => hopen.comes _ (Nat.le_add_right _ _)
  have hlast := hfixed.emitted hw.extend (hopen.comes _ (by simp))
  have hhere : ((d.extend part).emit op operand).here = d.here + s.size := by
    rw [hsize]
    simp [Nat.add_assoc]
  rw [hhere] at hforetold hrest
  refine ⟨hfixed.of_emit.of_extend, ?_, ?_⟩
  · rwa [Stmt.bodyEvents, hevents, List.nil_append]
  · rw [here_extend] at hlast
    rw [Stmt.bodyCode, codeAt_append, Stmt.length_code, hcode]
    refine ⟨?_, hrest⟩
    rw [codeAt_append]
    exact ⟨hpart, by simpa using hlast⟩

/-- The jump of a `break` has the operand that the next event gives it. One that waited before has
none. -/
theorem cons_leave (h : d.leave.Laid code stays events names body) (hw : d.Waiting)
    (hopen : d.Open stays) : d.Laid code stays events names (.leave :: body) := by
  obtain ⟨hfixed, ⟨hnow, hlater⟩, hrest⟩ := h
  rw [Draft.here_leave] at hnow hlater hrest
  have hjump := hnow d.here rfl
  refine ⟨hfixed.of_leave, ⟨fun i hi => ?_, hjump, hlater⟩, ?_⟩
  · exact hfixed.superseded hw hi (hopen.waits i hi)
  · rw [Stmt.bodyCode, Stmt.code, List.singleton_append, codeAt_cons, operandAt, hjump]
    exact ⟨rfl, hrest⟩

/-- A condition, the jump behind it and a body lie there once the jump is aimed. -/
theorem test {condition : Expr} {target : Nat} (hw : d.Waiting) (hopen : d.Open stays)
    (hcondition : condition.code d.names = condition.code names)
    (h : ((d.extend (condition.code d.names)).emit .branch).Laid code
      (fun i => stays i ∧ i ≠ d.here + condition.size) events names inner)
    (hbranch : code[d.here + condition.size]? = some { op := .branch, operand := .jump target }) :
    d.Fixed code stays ∧
      d.Foretold code (Stmt.bodyEvents (d.here + condition.size + 1) inner ++ events) ∧
      CodeAt code d.here (condition.code names ++ { op := .branch, operand := .jump target } ::
        Stmt.bodyCode names (operandAt code) (d.here + condition.size + 1) inner) := by
  have hpart := h.fixed.of_emit.extended hw fun k hk => by
    rw [Expr.length_code] at hk
    exact ⟨hopen.comes _ (by omega), by omega⟩
  obtain ⟨hfixed, hforetold, hinner⟩ := h
  rw [here_emit, here_extend, Expr.length_code] at hforetold hinner
  refine ⟨fun i hi hlt hpending => ?_, hforetold, ?_⟩
  · exact hfixed.of_emit.of_extend i ⟨hi, by omega⟩ hlt hpending
  · rw [codeAt_append, codeAt_cons, Expr.length_code, ← hcondition]
    exact ⟨hpart, hbranch, hinner⟩

/-- A condition, the jump behind it and a body are a conditional once the jump leads behind it. -/
theorem cons_cond {condition : Expr} {after : Nat} (hw : d.Waiting) (hopen : d.Open stays)
    (hcondition : condition.code d.names = condition.code names)
    (hafter : d.here + condition.size + 1 + Stmt.bodySize inner = after)
    (hinner : ((d.extend (condition.code d.names)).emit .branch).Laid code
      (fun i => stays i ∧ i ≠ d.here + condition.size) (Stmt.bodyEvents after body ++ events)
      names inner)
    (hbranch : code[d.here + condition.size]? = some { op := .branch, operand := .jump after })
    (hrest : CodeAt code after (Stmt.bodyCode names (operandAt code) after body)) :
    d.Laid code stays events names (.cond condition inner :: body) := by
  subst hafter
  have hend : d.here + (Stmt.cond condition inner).size =
      d.here + condition.size + 1 + Stmt.bodySize inner := by
    rw [Stmt.size]
    omega
  obtain ⟨hfixed, hforetold, hcode⟩ := hinner.test hw hopen hcondition hbranch
  refine ⟨hfixed, ?_, ?_⟩
  · rw [Stmt.bodyEvents, Stmt.events, hend, List.append_assoc]
    exact hforetold
  · rw [Stmt.bodyCode, codeAt_append, Stmt.length_code, hend]
    exact ⟨hcode, hrest⟩

/-- A condition, the jump behind it, a body and a jump back are a loop once the first jump leads
behind it. -/
theorem cons_loop {condition : Expr} {back : Nat} (hw : d.Waiting) (hopen : d.Open stays)
    (hcondition : condition.code d.names = condition.code names)
    (hback : d.here + condition.size + 1 + Stmt.bodySize inner = back)
    (hinner : ((d.extend (condition.code d.names)).emit .branch).Laid code
      (fun i => stays i ∧ i ≠ d.here + condition.size)
      (.close (back + 1) :: (Stmt.bodyEvents (back + 1) body ++ events)) names inner)
    (hbranch : code[d.here + condition.size]? =
      some { op := .branch, operand := .jump (back + 1) })
    (hgoto : code[back]? = some { op := .goto, operand := .jump d.here })
    (hrest : CodeAt code (back + 1) (Stmt.bodyCode names (operandAt code) (back + 1) body)) :
    d.Laid code stays events names (.loop condition inner :: body) := by
  subst hback
  have hend : d.here + (Stmt.loop condition inner).size =
      d.here + condition.size + 1 + Stmt.bodySize inner + 1 := by
    rw [Stmt.size]
    omega
  obtain ⟨hfixed, hforetold, hcode⟩ := hinner.test hw hopen hcondition hbranch
  refine ⟨hfixed, ?_, ?_⟩
  · rw [Stmt.bodyEvents, Stmt.events, hend, List.append_assoc, List.append_assoc]
    exact hforetold
  · rw [Stmt.bodyCode, codeAt_append, Stmt.length_code, hend]
    refine ⟨?_, hrest⟩
    rw [codeAt_append, codeAt_cons] at hcode
    obtain ⟨htest, hjump, hbody⟩ := hcode
    refine codeAt_append.mpr ⟨htest, codeAt_cons.mpr ⟨hjump, codeAt_append.mpr ⟨hbody, ?_⟩⟩⟩
    rw [Expr.length_code, Stmt.length_bodyCode]
    exact codeAt_cons.mpr ⟨hgoto, codeAt_nil _ _⟩

end Draft.Laid

/-- The walk over statements lays them into every code that is finished from its last draft. -/
theorem Emits.laid {names : List String} {d d' : Draft} {body : List Stmt}
    (h : Emits d body d') :
    ∀ {code : Array Instruction} {stays : Nat → Prop} {events : List Event},
      d.Waiting → d'.names <+: names → d.Open stays → d'.Fixed code stays →
      d'.Foretold code events → d.Laid code stays events names body := by
  -- From the last draft backwards: the rest of a list first, and then a body with the jump behind
  -- its condition left open, since it is aimed when the body has ended.
  induction h with
  | nil =>
    intro code stays events _ _ _ hfixed hforetold
    exact ⟨hfixed, hforetold, by simp [Stmt.bodyCode]⟩
  | @call d d' name args body declared rest ih =>
    intro code stays events hw hnames hopen hfixed hforetold
    have hlaid := ih hw.extend.emit hnames hopen.extend.emit hfixed hforetold
    refine hlaid.cons_plain hw hopen rfl ?_
    have hargs := Expr.listCode_of_isPrefix (rest.names_isPrefix.trans hnames) args declared
    exact congrArg (· ++ _) hargs.symm
  | @assign d d' name value body declared rest ih =>
    intro code stays events hw hnames hopen hfixed hforetold
    have hlaid := ih hw.extend.emit hnames hopen.extend.emit hfixed hforetold
    refine hlaid.cons_plain hw hopen rfl ?_
    have hmore : d.names <+: names := rest.names_isPrefix.trans hnames
    have hvalue := Expr.code_of_isPrefix hmore value
      fun v hv => declared v (List.mem_cons_of_mem _ hv)
    obtain ⟨more, rfl⟩ := hmore
    rw [Stmt.code, ← hvalue, List.idxOf_append_of_mem (declared name List.mem_cons_self)]
  | @declare d d' name initializer body declared fresh rest ih =>
    intro code stays events hw hnames hopen hfixed hforetold
    have hlaid := ih hw.extend.emit hnames hopen.extend.addName.emit hfixed hforetold
    have hmore : d.names ++ [name] <+: names := rest.names_isPrefix.trans hnames
    have hvalue := Expr.code_of_isPrefix ((List.prefix_append _ _).trans hmore) initializer declared
    obtain ⟨more, rfl⟩ := hmore
    have hslot : (d.names ++ [name] ++ more).idxOf name = d.names.length := by
      rw [List.append_assoc, List.idxOf_append_of_notMem fresh]
      simp
    have hplain : ((d.extend (initializer.code d.names)).emit .setLocal
        (.slot d.names.length)).Laid code stays events (d.names ++ [name] ++ more) body :=
      ⟨hlaid.fixed, hlaid.foretold, hlaid.codeAt⟩
    refine hplain.cons_plain hw hopen rfl ?_
    rw [Stmt.code, ← hvalue, hslot]
  | @cond d d₁ d' condition inner body declared within rest ihWithin ih =>
    intro code stays events hw hnames hopen hfixed hforetold
    have hw₁ := within.waiting hw.extend.emit
    have hexit := within.exit_notMem_pending hw
    have hnames₁ := rest.names_isPrefix.trans hnames
    obtain ⟨hfix, hfore, hrest⟩ := ih (hw₁.aim hexit) hnames (within.opens hopen.extend.emit).aim
      hfixed hforetold
    rw [Draft.here_aim] at hfore hrest
    have hbranch := hfix.aimed (hopen.comes _ (Nat.le_add_right _ _)) hexit (within.code_exit hw)
    have hinner := ihWithin hw.extend.emit hnames₁ (hopen.body hw) hfix.of_aim hfore
    have hcondition :=
      Expr.code_of_isPrefix (within.names_isPrefix.trans hnames₁) condition declared
    exact .cons_cond hw hopen hcondition within.here_within.symm hinner hbranch hrest
  | @loop d d₁ d' condition inner body declared within rest ihWithin ih =>
    intro code stays events hw hnames hopen hfixed hforetold
    have hw₁ := within.waiting hw.extend.emit
    have hexit := within.exit_notMem_pending hw
    have hopen₁ := within.opens hopen.extend.emit
    have hnames₁ := rest.names_isPrefix.trans hnames
    rw [Draft.names_endLoop] at hnames₁
    obtain ⟨hfix, ⟨-, hlater⟩, hrest⟩ := ih Draft.Waiting.endLoop hnames hopen₁.emit.aim.endLoop
      hfixed hforetold
    -- the jump that waits at the end of the body leaves this very loop
    have hclose := hfix.foretold_close (hw₁.emit.aim hexit) hopen₁.waits hlater
    rw [Draft.here_endLoop, Draft.here_aim, Draft.here_emit] at hclose hrest
    have hbranch := hfix.of_endLoop.aimed (hopen.comes _ (Nat.le_add_right _ _)) hexit
      ((Draft.code_emit_of_lt (by rw [within.here_within]; omega)).trans (within.code_exit hw))
    have hgoto := hfix.of_endLoop.of_aim.emitted hw₁
      ⟨hopen₁.comes _ (Nat.le_refl _), by rw [within.here_within]; omega⟩
    have hinner :=
      ihWithin hw.extend.emit hnames₁ (hopen.body hw) hfix.of_endLoop.of_aim.of_emit hclose
    have hcondition :=
      Expr.code_of_isPrefix (within.names_isPrefix.trans hnames₁) condition declared
    exact .cons_loop hw hopen hcondition within.here_within.symm hinner hbranch hgoto hrest
  | @leave d d' body rest ih =>
    intro code stays events hw hnames hopen hfixed hforetold
    have hlaid := ih Draft.Waiting.leave hnames hopen.leave hfixed hforetold
    exact hlaid.cons_leave hw hopen
  | @suspend d d' body rest ih =>
    intro code stays events hw hnames hopen hfixed hforetold
    have hlaid := ih hw.emit hnames hopen.emit hfixed hforetold
    have hplain : ((d.extend []).emit .suspend).Laid code stays events names body := by
      rwa [Draft.extend_nil]
    exact hplain.cons_plain hw hopen rfl rfl

/-- What is known of a function to which a program was compiled with certain variables. -/
structure Compiled (p : Program) (names : List String) (f : Function) : Prop where
  size_eq : f.instructions.size = Stmt.bodySize p.statements + 1
  localCount_eq : f.localCount = names.length
  codeAt : CodeAt f.instructions 0
    (Stmt.bodyCode names (operandAt f.instructions) 0 p.statements)
  finish_at : f.instructions[Stmt.bodySize p.statements]? = some { op := .finish }
  settled : Settled f.instructions (Stmt.bodyEvents 0 p.statements)
  declared : ∀ v ∈ Stmt.bodyMentioned p.statements, v ∈ names

/-- The last instruction ends the program, and what holds along its code holds of every other. -/
theorem Compiled.along_or_last {p : Program} {names : List String} {f : Function}
    {P : Nat → Instruction → Prop} (h : Compiled p names f)
    (hcode : Along P 0 (Stmt.bodyCode names (operandAt f.instructions) 0 p.statements))
    {index : Nat} {i : Instruction} (hi : f.instructions[index]? = some i) :
    index + 1 = f.instructions.size ∧ i = { op := .finish } ∨ P index i := by
  have hlt : index < f.instructions.size := (Array.getElem?_eq_some_iff.mp hi).1
  rw [h.size_eq] at hlt ⊢
  by_cases hend : index = Stmt.bodySize p.statements
  · left
    rw [hend, h.finish_at] at hi
    cases hi
    exact ⟨by rw [hend], rfl⟩
  · right
    have hpart :
        index < (Stmt.bodyCode names (operandAt f.instructions) 0 p.statements).length := by
      rw [Stmt.length_bodyCode]
      omega
    have hsame := h.codeAt index _ (List.getElem?_eq_getElem hpart)
    have hholds := hcode index _ (List.getElem?_eq_getElem hpart)
    rw [Nat.zero_add] at hsame hholds
    rw [hi] at hsame
    cases hsame
    exact hholds

/-- A walk over a program that succeeds leads to the code of the program. -/
theorem Program.compiled_of_block {p : Program} {r : Registry} {d : Draft}
    (h : Draft.block r p.statements {} = .ok d) : Compiled p d.names d.function := by
  have hemits := Draft.emits_of_block p.statements h
  have hw : ({} : Draft).Waiting := fun i hi => by simp at hi
  have hhere : d.here = Stmt.bodySize p.statements := by
    simpa [Draft.here] using hemits.here_eq
  have hforetold : d.Foretold (d.emit .finish).code [] := ⟨(hemits.waiting hw).emit, trivial⟩
  have hfixed : d.Fixed (d.emit .finish).code fun _ => True :=
    fun i _ hlt _ => Draft.code_emit_of_lt hlt
  have hopen : ({} : Draft).Open fun _ => True := ⟨fun _ _ => trivial, fun _ _ => trivial⟩
  have hlaid := hemits.laid hw List.prefix_rfl hopen hfixed hforetold
  exact {
    size_eq := by
      rw [← hhere]
      exact Draft.here_emit
    localCount_eq := rfl
    codeAt := hlaid.codeAt
    finish_at := by
      rw [← hhere]
      exact Draft.code_emit_here
    settled := by
      have hsettled := hlaid.foretold.2
      rwa [List.append_nil] at hsettled
    declared := hemits.declared }

/-- A program that compiles becomes a function of which this is known. -/
theorem Program.compiled_of_compile {p : Program} {r : Registry} {f : Function}
    (h : p.compile r = .ok f) : ∃ names, Compiled p names f := by
  obtain ⟨d, hblock, rfl⟩ := compile_eq_ok.mp h
  exact ⟨d.names, compiled_of_block hblock⟩

end FrameScript
