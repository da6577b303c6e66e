import FrameScript.Host
import FrameScript.Proofs.Compiler.Uninterrupted
import FrameScript.Proofs.Simulation.Runs
import FrameScript.Proofs.Simulation.Uninterrupted

/-!
# Suspensions only slice a run

A host plays a program frame by frame, one for each suspension. What the frames show together is
what a single run shows of the program without its `yield` statements: the same output, the same
variables and the same fault, and one comes to its end exactly if the other does.
-/

namespace FrameScript

/-! ### Playing a program -/

namespace Host

/-- A frame that was just played with those of a number of further ticks, and the host after
them. -/
def follow (fuel : Nat) : Nat → Frame × Host → Option (List Frame × Host)
  | 0, (frame, host) => some ([frame], host)
  | n + 1, (frame, host) => do
    let next ← host.tick fuel
    let (frames, last) ← follow fuel n next
    return (frame :: frames, last)

/-- The frames of a start and a number of ticks, and the host after them. -/
def play (host : Host) (fuel : Nat) (f : Function) (n : Nat) : Option (List Frame × Host) := do
  let first ← host.start fuel f
  follow fuel n first

end Host

/-- The fault with which a call has ended, if it was one. -/
def Machine.Stop.fault? (stop : Machine.Stop) : Option Fault :=
  match stop.1 with
  | .ok _ => none
  | .error fault => some fault

/-- What frames show together is what the end of an uninterrupted call shows, when some output was
pending before. -/
structure ShowsTogether (before : Output) (frames : List Frame) (host : Host)
    (stop : Machine.Stop) : Prop where
  console : stop.2.output.console.toList = before.console.toList ++ frames.flatMap (·.console)
  triangles :
    stop.2.output.triangles.toList = before.triangles.toList ++ frames.flatMap (·.triangles)
  locals_eq : host.machine.locals = stop.2.locals
  fault : frames.filterMap (·.fault) = stop.fault?.toList

/-- A frame of a suspension comes before what is shown later. -/
theorem ShowsTogether.cons {host last : Host} {m : Machine} {taken : Output} {frames : List Frame}
    {stop : Machine.Stop} (h : ShowsTogether (taken ++ m.output) frames last stop) :
    ShowsTogether taken ((host.collect (.ok .suspended, m)).1 :: frames) last stop where
  console := by
    rw [h.console, Output.console_append, Array.toList_append, List.append_assoc]
    rfl
  triangles := by
    rw [h.triangles, Output.triangles_append, Array.toList_append, List.append_assoc]
    rfl
  locals_eq := h.locals_eq
  fault := h.fault

namespace Host

variable {host last : Host} {start : Frame × Host} {fuel n : Nat} {f : Function}
  {frames : List Frame}

/-- The frames of some ticks are the frame before and those of the other ticks. -/
theorem follow_succ : follow fuel (n + 1) start = some (frames, last) ↔
    ∃ next rest, start.2.tick fuel = some next ∧ follow fuel n next = some (rest, last) ∧
      start.1 :: rest = frames := by
  obtain ⟨frame, host⟩ := start
  simp only [follow, bind, Option.bind_eq_some_iff, pure, Option.some.injEq, Prod.mk.injEq]
  constructor
  · rintro ⟨next, hnext, ⟨rest, after⟩, hrest, hframes, rfl⟩
    exact ⟨next, rest, hnext, hrest, hframes⟩
  · rintro ⟨next, rest, hnext, hrest, hframes⟩
    exact ⟨next, hnext, (rest, last), hrest, hframes, rfl⟩

/-- A larger budget gives the same frame. -/
theorem tick_mono : Lasting fun fuel => host.tick fuel :=
  Machine.resume_mono.map host.collect

/-- A larger budget for each tick gives the same frames. -/
theorem follow_mono : Lasting fun fuel => follow fuel n start := by
  induction n generalizing start with
  | zero => exact .const _
  | succ n ih => exact tick_mono.bind fun _ => ih.bind fun _ => .const _

/-- A suspended host goes on where its machine stopped. -/
theorem tick_of_suspended (h : host.machine.status = .suspended) (fuel : Nat) :
    host.tick fuel =
      (Machine.execute host.registry fuel { host.machine with status := .running }).map
        host.collect := by
  rw [tick, Machine.resume, h]

/-- After its last frame, a host plays empty ones. -/
theorem tick_of_finished (h : host.machine.status = .finished) (fuel : Nat) :
    host.tick fuel = some (host.collect (.ok .finished, host.machine)) := by
  rw [tick, Machine.resume, h]
  rfl

/-- After its last frame, a host plays empty ones and its machine rests. -/
theorem follow_of_finished (hfinished : start.2.machine.status = .finished)
    (houtput : start.2.machine.output = {}) (h : follow fuel n start = some (frames, last)) :
    last.machine = start.2.machine ∧ ∃ rest, frames = start.1 :: rest ∧
      ∀ other ∈ rest, other.console = [] ∧ other.triangles = [] ∧ other.fault = none := by
  induction n generalizing start frames with
  | zero =>
    cases h
    exact ⟨rfl, [], rfl, by simp⟩
  | succ n ih =>
    obtain ⟨next, rest, hnext, hrest, rfl⟩ := follow_succ.mp h
    let empty := start.2.collect (.ok .finished, start.2.machine)
    have hempty : empty.2.machine.status = .finished := hfinished
    rw [tick_of_finished hfinished] at hnext
    obtain rfl := Option.some.inj hnext
    obtain ⟨hmachine, others, rfl, hothers⟩ := ih hempty rfl hrest
    have hrests : empty.2.machine = start.2.machine :=
      congrArg (fun output => { start.2.machine with output }) houtput.symm
    have hshown : empty.1.console = [] ∧ empty.1.triangles = [] ∧ empty.1.fault = none :=
      ⟨congrArg (·.console.toList) houtput, congrArg (·.triangles.toList) houtput, rfl⟩
    exact ⟨hmachine.trans hrests, _, rfl, List.forall_mem_cons.mpr ⟨hshown, hothers⟩⟩

/-- A call that ends the run shows the rest of it, whatever is ticked afterwards. -/
theorem showsTogether_of_finished {result : Except Fault Status} {m : Machine}
    (hfinished : m.status = .finished)
    (h : follow fuel n (host.collect (result, m)) = some (frames, last)) (taken : Output) :
    ShowsTogether taken frames last (result, m.uninterrupted taken) := by
  obtain ⟨hmachine, rest, rfl, hrest⟩ := follow_of_finished hfinished rfl h
  have hconsole : rest.flatMap (·.console) = [] :=
    List.flatMap_eq_nil_iff.mpr fun other hother => (hrest other hother).1
  have htriangles : rest.flatMap (·.triangles) = [] :=
    List.flatMap_eq_nil_iff.mpr fun other hother => (hrest other hother).2.1
  have hfault : rest.filterMap (·.fault) = [] :=
    List.filterMap_eq_nil_iff.mpr fun other hother => (hrest other hother).2.2
  refine ⟨?_, ?_, ?_, ?_⟩
  · rw [List.flatMap_cons, hconsole, List.append_nil, Machine.uninterrupted,
      Output.console_append, Array.toList_append]
    rfl
  · rw [List.flatMap_cons, htriangles, List.append_nil, Machine.uninterrupted,
      Output.triangles_append, Array.toList_append]
    rfl
  · rw [hmachine]
    rfl
  · cases result with
    | ok status => exact hfault
    | error fault => exact congrArg (fault :: ·) hfault

variable {p : Program} {names : List String} {m : Machine} {stop : Machine.Stop}

/-- If one of the frames is the last one, the machine without suspensions ends with what they show
together. -/
theorem exists_stop_of_follow (happends : host.registry.OnlyAppends)
    (hcompiled : Compiled p names f) (hwithin : m.Within f) (hrunning : m.status = .running)
    (hstop : Machine.execute host.registry fuel m = some stop)
    (hfollow : follow fuel n (host.collect stop) = some (frames, last))
    (hlast : ∃ frame ∈ frames, frame.isLast = true) (taken : Output) :
    ∃ fuel' stop', Machine.execute host.registry fuel' (m.uninterrupted taken) = some stop' ∧
      ShowsTogether taken frames last stop' := by
  induction n using Nat.strongRecOn generalizing host m stop frames taken with
  | ind n ih =>
    cases hwithin.mirrored_of_execute happends hcompiled hrunning hstop with
    | last status_eq execute =>
      obtain ⟨fuel', hexecute⟩ := execute taken
      exact ⟨fuel', _, hexecute, showsTogether_of_finished status_eq hfollow taken⟩
    | @suspend m' status_eq within steps =>
      cases n with
      | zero =>
        cases hfollow
        obtain ⟨frame, hframe, hisLast⟩ := hlast
        cases List.mem_singleton.mp hframe
        cases hisLast
      | succ n =>
        obtain ⟨next, rest, hnext, hrest, rfl⟩ := follow_succ.mp hfollow
        have hlater : ∃ frame ∈ rest, frame.isLast = true := by
          simpa [Frame.isLast, collect] using hlast
        let after := (host.collect (.ok .suspended, m')).2
        have hafter : after.machine.status = .suspended := status_eq
        rw [tick_of_suspended hafter] at hnext
        obtain ⟨stop, hresumed, rfl⟩ := Option.map_eq_some_iff.mp hnext
        have happends' : after.registry.OnlyAppends := happends
        obtain ⟨fuel', stop', hexecute, hshows⟩ := ih n (Nat.lt_succ_self n) happends' within rfl
          hresumed hrest hlater (taken ++ m'.output)
        obtain ⟨k, hsteps⟩ := steps taken
        exact ⟨fuel' + k, stop', (hsteps.execute_add fuel').trans hexecute, hshows.cons⟩

/-- If a run comes to its end, so do the frames. -/
theorem exists_follow_of_completes {r : Registry} (h : Machine.Completes r m) (host : Host)
    (hr : host.registry = r) :
    ∃ fuel n stop frames last, Machine.execute r fuel m = some stop ∧
      follow fuel n (host.collect stop) = some (frames, last) ∧
      ∃ frame ∈ frames, frame.isLast = true := by
  induction h generalizing host with
  | @last m stop ends finished =>
    refine ⟨1, 0, stop, _, _, ends.execute, rfl, _, List.mem_singleton_self _, ?_⟩
    cases ends with
    | stop hstep => simpa [Frame.isLast, collect] using finished
    | abort hstep => rfl
  | @next m m' step rest ih =>
    obtain ⟨fuel, n, stop, frames, last, hexecute, hfollow, hlast⟩ := ih host hr
    have hmore := ((Machine.Steps.single step).execute_add fuel).trans hexecute
    exact ⟨fuel + 1, n, stop, frames, last, hmore, follow_mono hfollow (Nat.le_succ fuel), hlast⟩
  | @resume m m' step suspended rest ih =>
    let after := (host.collect (.ok m'.status, m')).2
    have hafter : after.machine.status = .suspended := suspended
    have hregistry : after.registry = r := hr
    obtain ⟨fuel, n, stop, frames, last, hexecute, hfollow, frame, hframe, hisLast⟩ :=
      ih after hregistry
    have hle : fuel ≤ fuel + 1 := Nat.le_succ fuel
    have hfirst := Machine.execute_mono (Machine.Ends.stop step).execute (Nat.le_add_left 1 fuel)
    have htick : after.tick (fuel + 1) = some (after.collect stop) := by
      rw [tick_of_suspended hafter, hregistry]
      exact congrArg (Option.map _) (Machine.execute_mono hexecute hle)
    have hrest := follow_mono hfollow hle
    exact ⟨fuel + 1, n + 1, _, _, last, hfirst,
      follow_succ.mpr ⟨_, _, htick, hrest, rfl⟩, frame, List.mem_cons_of_mem _ hframe, hisLast⟩

/-! ### Starting a program -/

/-- The host with nothing pending and no ticks played, as every start makes it. -/
def fresh (host : Host) : Host :=
  { host with machine := { host.machine with output := {} }, ticks := 0 }

/-- The frames of a play start with the one of the first call. -/
theorem play_eq_some : host.play fuel f n = some (frames, last) ↔
    ∃ stop, Machine.execute host.registry fuel (host.fresh.machine.load f) = some stop ∧
      follow fuel n (host.fresh.collect stop) = some (frames, last) := by
  simp only [play, start, bind, Option.bind_eq_some_iff, Option.map_eq_some_iff]
  constructor
  · rintro ⟨_, ⟨stop, hstop, rfl⟩, hfollow⟩
    exact ⟨stop, hstop, hfollow⟩
  · rintro ⟨stop, hstop, hfollow⟩
    exact ⟨_, ⟨stop, hstop, rfl⟩, hfollow⟩

/-- A run without suspensions starts where the machine of a host starts. -/
theorem load_uninterrupted (host : Host) (f : Function) (m : Machine) :
    (host.fresh.machine.load f).uninterrupted m.output = m.load f.uninterrupted := by
  have houtput : m.output ++ host.fresh.machine.output = m.output := Output.append_empty m.output
  simp only [Machine.uninterrupted, Machine.load, houtput]
  rfl

end Host

/-- The frames of a host that starts a compiled program show together what a single run of the
program without its `yield` statements shows. Some frame is the last one exactly if this run
returns. Builtins must only append to the output and depend on their arguments alone. -/
theorem Program.frames_slice_run {p : Program} {r : Registry} {f : Function}
    (h : p.compile r = .ok f) (host : Host) (happends : host.registry.OnlyAppends) :
    p.uninterrupted.compile r = .ok f.uninterrupted ∧ ∀ m : Machine,
      ((∃ fuel n frames last, host.play fuel f n = some (frames, last) ∧
          ∃ frame ∈ frames, frame.isLast = true) ↔
        ∃ fuel stop, m.run host.registry fuel f.uninterrupted = some stop) ∧
      ∀ fuel n frames last fuel' stop, host.play fuel f n = some (frames, last) →
        (∃ frame ∈ frames, frame.isLast = true) →
        m.run host.registry fuel' f.uninterrupted = some stop →
          ShowsTogether m.output frames last stop := by
  refine ⟨compile_uninterrupted h, fun m => ?_⟩
  obtain ⟨names, hcompiled⟩ := compiled_of_compile h
  have hwithin : (host.fresh.machine.load f).Within f :=
    (Machine.Reaches.start (r := r)).within hcompiled
  have hends : ∀ {fuel n frames last}, host.play fuel f n = some (frames, last) →
      (∃ frame ∈ frames, frame.isLast = true) →
      ∃ fuel' stop, m.run host.registry fuel' f.uninterrupted = some stop ∧
        ShowsTogether m.output frames last stop := by
    intro fuel n frames last hplay hlast
    obtain ⟨stop, hstop, hfollow⟩ := Host.play_eq_some.mp hplay
    have happends' : host.fresh.registry.OnlyAppends := happends
    have hends := Host.exists_stop_of_follow happends' hcompiled hwithin rfl hstop hfollow hlast
      m.output
    rwa [host.load_uninterrupted] at hends
  refine ⟨⟨?_, ?_⟩, ?_⟩
  · rintro ⟨fuel, n, frames, last, hplay, hlast⟩
    obtain ⟨fuel', stop, hrun, -⟩ := hends hplay hlast
    exact ⟨fuel', stop, hrun⟩
  · rintro ⟨fuel, stop, hrun⟩
    rw [Machine.run, ← host.load_uninterrupted] at hrun
    have hcompletes := hwithin.completes happends hcompiled rfl hrun
    obtain ⟨fuel, n, stop, frames, last, hexecute, hfollow, hlast⟩ :=
      Host.exists_follow_of_completes hcompletes host.fresh rfl
    exact ⟨fuel, n, frames, last, Host.play_eq_some.mpr ⟨stop, hexecute, hfollow⟩, hlast⟩
  · intro fuel n frames last fuel' stop hplay hlast hrun
    obtain ⟨fuel'', stop', hrun', hshows⟩ := hends hplay hlast
    rwa [Machine.execute_mono.unique hrun hrun']

/-- A program that prints in two frames and then leaves a loop that is not there. -/
def Program.brokenOff : Program where
  statements := [.call "Print" [.bool true],
    .cond (.bool true) [.suspend, .call "Print" [.bool false]], .leave]

/-- The program shows the same in two frames as without its suspension in one run, fault included.
-/
theorem Program.frames_brokenOff :
    ∃ f, brokenOff.compile .standard = .ok f ∧
      brokenOff.uninterrupted.compile .standard = .ok f.uninterrupted ∧
      ∃ fuel n frames last, Host.play { registry := .standard } fuel f n = some (frames, last) ∧
        frames.flatMap (·.console) = ["true", "false"] ∧
        frames.filterMap (·.fault) = [.noTarget .goto] := by
  obtain ⟨f, hcompile, stop, hrun, hconsole, hfault⟩ : ∃ f, brokenOff.compile .standard = .ok f ∧
      ∃ stop, ({} : Machine).run .standard 20 f.uninterrupted = some stop ∧
        stop.2.output.console.toList = ["true", "false"] ∧
        stop.fault? = some (.noTarget .goto) := ⟨_, rfl, _, rfl, rfl, rfl⟩
  obtain ⟨hcompile', hruns⟩ :=
    frames_slice_run hcompile { registry := .standard } Registry.standard_onlyAppends
  obtain ⟨hreturns, hshows⟩ := hruns {}
  obtain ⟨fuel, n, frames, last, hplay, hlast⟩ := hreturns.mpr ⟨20, stop, hrun⟩
  have hsame := hshows fuel n frames last 20 stop hplay hlast hrun
  refine ⟨f, hcompile, hcompile', fuel, n, frames, last, hplay, ?_, ?_⟩
  · have hframes := hsame.console
    rw [hconsole] at hframes
    exact hframes.symm
  · rw [hsame.fault, hfault]
    rfl

end FrameScript
