import FrameScript.Proofs.Machine.Protocol
import FrameScript.Proofs.Simulation.Frames

/-!
# Frames partition the output

Whatever a host was asked to do before, the frames of a start and of the ticks behind it show what
the calls of a new machine do, if nobody takes its output away. The host takes it away after every
call, so that a frame shows the part that its own call has added.
-/

namespace FrameScript

/-! ### What a frame shows -/

/-- The result of the call that a frame was made of. -/
def Frame.result (frame : Frame) : Except Fault Status :=
  match frame.fault with
  | none => .ok frame.status
  | some fault => .error fault

/-- A frame shows how a call has ended, and what it added to the output before it. -/
structure Frame.Shows (frame : Frame) (tick : Nat) (before : Output) (stop : Machine.Stop) :
    Prop where
  tick_eq : frame.tick = tick
  result_eq : frame.result = stop.1
  status_eq : frame.status = stop.2.status
  console : stop.2.output.console.toList = before.console.toList ++ frame.console
  triangles : stop.2.output.triangles.toList = before.triangles.toList ++ frame.triangles

/-- What is pending before a call of a run, if all the calls before it return. -/
def Machine.pendingBefore (m : Machine) (r : Registry) (fuel : Nat) (f : Function) : Nat → Output
  | 0 => m.output
  | k + 1 => ((m.nthStop? r fuel f k).map (·.2.output)).getD m.output

/-- Frames that show the calls of a run of a new machine, from one of them on. -/
inductive ShowsCalls (r : Registry) (fuel : Nat) (f : Function) :
    Nat → Nat → List Frame → Machine.Stop → Prop where
  | last {k frame stop} (returns : ({} : Machine).nthStop? r fuel f k = some stop)
    (shows : frame.Shows (k + 1) (({} : Machine).pendingBefore r fuel f k) stop) :
    ShowsCalls r fuel f k 0 [frame] stop
  | more {k n frame stop frames last} (returns : ({} : Machine).nthStop? r fuel f k = some stop)
    (shows : frame.Shows (k + 1) (({} : Machine).pendingBefore r fuel f k) stop)
    (rest : ShowsCalls r fuel f (k + 1) n frames last) :
    ShowsCalls r fuel f k (n + 1) (frame :: frames) last

/-- A host whose machine is at the end of a call of a new machine, but for the output that was taken
away. -/
structure Host.Follows (r : Registry) (fuel : Nat) (f : Function) (k : Nat) (host : Host)
    (stop : Machine.Stop) : Prop where
  returns : ({} : Machine).nthStop? r fuel f k = some stop
  registry_eq : host.registry = r
  ticks_eq : host.ticks = k + 1
  machine_eq : host.machine.behind stop.2.output = stop.2

variable {r : Registry} {fuel k n : Nat} {f : Function}

/-! ### Calls of a run -/

namespace Machine

variable {m : Machine} {stop : Stop}

/-- What is pending before a call is what the call before left. -/
theorem pendingBefore_succ (h : m.nthStop? r fuel f k = some stop) :
    m.pendingBefore r fuel f (k + 1) = stop.2.output := by
  rw [pendingBefore, h]
  rfl

/-- Once the run is over, what it left stays pending. -/
theorem pendingBefore_of_finished (h : m.nthStop? r fuel f k = some stop)
    (hfinished : stop.2.status = .finished) (d : Nat) :
    m.pendingBefore r fuel f (k + 1 + d) = stop.2.output := by
  cases d with
  | zero => exact pendingBefore_succ h
  | succ d => rw [← Nat.add_assoc, pendingBefore_succ (nthStop?_of_finished h hfinished d)]

end Machine

/-! ### One frame -/

namespace Frame.Shows

variable {frame : Frame} {tick : Nat} {before : Output} {stop : Machine.Stop}

/-- The last frame is the one of a call that ends the run. -/
theorem isLast_iff (h : frame.Shows tick before stop) :
    frame.isLast = true ↔ stop.2.status = .finished := by
  rw [← h.status_eq, isLast, beq_iff_eq]

/-- A frame with a fault shows a call that has failed. -/
theorem stop_of_fault (h : frame.Shows tick before stop) (hfault : frame.fault ≠ none) :
    ∃ fault, stop.1 = .error fault := by
  obtain ⟨fault, hfault⟩ := Option.ne_none_iff_exists'.mp hfault
  refine ⟨fault, ?_⟩
  rw [← h.result_eq, result, hfault]

/-- A frame of a call that finds the run at its end shows nothing. -/
theorem empty {m : Machine} (hfinished : m.status = .finished)
    (h : frame.Shows tick m.output (.ok .finished, m)) :
    frame.status = .finished ∧ frame.console = [] ∧ frame.triangles = [] ∧ frame.fault = none := by
  refine ⟨h.status_eq.trans hfinished, List.self_eq_append_right.mp h.console,
    List.self_eq_append_right.mp h.triangles, ?_⟩
  by_contra hfault
  obtain ⟨fault, herror⟩ := h.stop_of_fault hfault
  cases herror

end Frame.Shows

/-- The frame that a host makes of a call shows it. -/
theorem Frame.shows_collect {host : Host} {stop : Machine.Stop} (h : stop.Consistent)
    (before : Output) :
    (host.collect stop).1.Shows (host.ticks + 1) before (stop.behind before) where
  tick_eq := rfl
  result_eq := by
    obtain ⟨result, m⟩ := stop
    cases result <;> rfl
  status_eq := by
    obtain ⟨result, m⟩ := stop
    cases result with
    | ok status =>
      rcases h with h | ⟨fault, h, -⟩
      · exact Except.ok.inj h
      · cases h
    | error fault => rfl
  console := Array.toList_append
  triangles := Array.toList_append

/-! ### The frames of a host -/

namespace Host

variable {host last : Host} {stop stop' : Machine.Stop} {before : Output} {frame : Frame}
  {frames : List Frame}

/-- The frame of a call shows it, if the call does what one of a new machine does. -/
theorem follows_collect (hregistry : host.registry = r) (hticks : host.ticks = k)
    (h : ({} : Machine).nthStop? r fuel f k = some (stop.behind before)) :
    (host.collect stop).2.Follows r fuel f k (stop.behind before) ∧
      (host.collect stop).1.Shows (k + 1) before (stop.behind before) := by
  subst hticks
  have hbehind : (stop.behind before).Consistent := Machine.consistent_of_nthStop? h
  have hconsistent : stop.Consistent := hbehind
  exact ⟨{
    returns := h
    registry_eq := hregistry
    ticks_eq := rfl
    machine_eq := congrArg (fun output => { stop.2 with output })
      (Output.append_empty (before ++ stop.2.output)) }, Frame.shows_collect hconsistent before⟩

/-- The machine of a host that is started does what a new one does. -/
theorem follows_start
    (h : Machine.execute host.registry fuel (host.fresh.machine.load f) = some stop) :
    (host.fresh.collect stop).2.Follows host.registry fuel f 0 stop ∧
      (host.fresh.collect stop).1.Shows 1 {} stop := by
  have hbehind : stop.behind {} = stop :=
    congrArg (fun output => (stop.1, { stop.2 with output })) (Output.empty_append stop.2.output)
  have hreturns : ({} : Machine).nthStop? host.registry fuel f 0 = some (stop.behind {}) :=
    h.trans (congrArg some hbehind.symm)
  have hregistry : host.fresh.registry = host.registry := rfl
  have hfirst := follows_collect hregistry rfl hreturns
  rwa [hbehind] at hfirst

namespace Follows

/-- A tick does what the next call of the new machine does. -/
theorem nthStop?_succ (h : host.Follows r fuel f k stop) (happends : r.OnlyAppends) :
    ({} : Machine).nthStop? r fuel f (k + 1) =
      (host.machine.resume r fuel).map (·.behind stop.2.output) := by
  rw [Machine.nthStop?_succ h.returns, ← Machine.resume_behind happends, h.machine_eq]

/-- The frame of a tick shows the next call of the new machine. -/
theorem of_tick (h : host.Follows r fuel f k stop) (happends : r.OnlyAppends)
    {next : Frame × Host} (htick : host.tick fuel = some next) :
    ∃ stop', next.2.Follows r fuel f (k + 1) stop' ∧
      next.1.Shows (k + 2) (({} : Machine).pendingBefore r fuel f (k + 1)) stop' := by
  rw [tick, h.registry_eq] at htick
  obtain ⟨taken, hresume, rfl⟩ := Option.map_eq_some_iff.mp htick
  have hnext := h.nthStop?_succ happends
  rw [hresume] at hnext
  rw [Machine.pendingBefore_succ h.returns]
  exact ⟨_, follows_collect h.registry_eq h.ticks_eq hnext⟩

/-- A tick returns if the next call of the new machine does. -/
theorem exists_tick (h : host.Follows r fuel f k stop) (happends : r.OnlyAppends)
    (hnext : ({} : Machine).nthStop? r fuel f (k + 1) = some stop') :
    ∃ next, host.tick fuel = some next := by
  rw [h.nthStop?_succ happends] at hnext
  obtain ⟨taken, hresume, -⟩ := Option.map_eq_some_iff.mp hnext
  rw [tick, h.registry_eq, hresume]
  exact ⟨_, rfl⟩

/-- The frames of further ticks show the calls of the new machine. -/
theorem showsCalls (h : host.Follows r fuel f k stop) (happends : r.OnlyAppends)
    (hshows : frame.Shows (k + 1) (({} : Machine).pendingBefore r fuel f k) stop)
    (hfollow : follow fuel n (frame, host) = some (frames, last)) :
    ∃ stop', ShowsCalls r fuel f k n frames stop' := by
  induction n generalizing host frame frames k stop with
  | zero =>
    cases hfollow
    exact ⟨stop, .last h.returns hshows⟩
  | succ n ih =>
    obtain ⟨next, rest, hnext, hrest, rfl⟩ := follow_succ.mp hfollow
    obtain ⟨stop', hfollows, hshows'⟩ := h.of_tick happends hnext
    obtain ⟨stop'', hcalls⟩ := ih hfollows hshows' hrest
    exact ⟨stop'', .more h.returns hshows hcalls⟩

/-- Further ticks return if the calls of the new machine do. -/
theorem exists_follow (h : host.Follows r fuel f k stop) (happends : r.OnlyAppends)
    (hstop : ({} : Machine).nthStop? r fuel f (k + n) = some stop') :
    ∃ frames last, follow fuel n (frame, host) = some (frames, last) := by
  induction n generalizing host frame k stop with
  | zero => exact ⟨_, _, rfl⟩
  | succ n ih =>
    have hle : k + 1 ≤ k + (n + 1) := by omega
    obtain ⟨_, hnext⟩ := Machine.exists_nthStop?_of_le hstop hle
    obtain ⟨next, htick⟩ := h.exists_tick happends hnext
    obtain ⟨_, hfollows, -⟩ := h.of_tick happends htick
    rw [show k + (n + 1) = k + 1 + n by omega] at hstop
    obtain ⟨frames, last, hrest⟩ := ih hfollows hstop
    exact ⟨_, last, follow_succ.mpr ⟨next, frames, htick, hrest, rfl⟩⟩

end Follows

end Host

/-! ### Frames together -/

namespace ShowsCalls

variable {frames : List Frame} {stop : Machine.Stop}

/-- There is one frame for each call. -/
theorem length_eq (h : ShowsCalls r fuel f k n frames stop) : frames.length = n + 1 := by
  induction h with
  | last => rfl
  | more _ _ _ ih => exact congrArg (· + 1) ih

/-- The call of the last frame returns. -/
theorem returns (h : ShowsCalls r fuel f k n frames stop) :
    ({} : Machine).nthStop? r fuel f (k + n) = some stop := by
  induction h with
  | last returns => exact returns
  | more _ _ _ ih => rwa [Nat.add_right_comm] at ih

/-- Every frame shows the call at its place. -/
theorem exists_of_getElem? (h : ShowsCalls r fuel f k n frames stop) {j : Nat} {frame : Frame}
    (hj : frames[j]? = some frame) :
    ∃ stop, ({} : Machine).nthStop? r fuel f (k + j) = some stop ∧
      frame.Shows (k + j + 1) (({} : Machine).pendingBefore r fuel f (k + j)) stop := by
  induction h generalizing j with
  | last returns shows =>
    cases j with
    | zero =>
      cases hj
      exact ⟨_, returns, shows⟩
    | succ j => cases hj
  | more returns shows _ ih =>
    cases j with
    | zero =>
      cases hj
      exact ⟨_, returns, shows⟩
    | succ j =>
      obtain ⟨stop, hstop⟩ := ih hj
      rw [Nat.add_right_comm] at hstop
      exact ⟨stop, hstop⟩

/-- Together, the frames hold every line that the calls print, in order. -/
theorem console (h : ShowsCalls r fuel f k n frames stop) :
    stop.2.output.console.toList = (({} : Machine).pendingBefore r fuel f k).console.toList ++
      frames.flatMap (·.console) := by
  induction h with
  | last _ shows => rw [shows.console, List.flatMap_singleton]
  | more returns shows _ ih =>
    rw [ih, Machine.pendingBefore_succ returns, shows.console, List.flatMap_cons,
      List.append_assoc]

/-- Together, the frames hold every triangle that the calls draw, in order. -/
theorem triangles (h : ShowsCalls r fuel f k n frames stop) :
    stop.2.output.triangles.toList = (({} : Machine).pendingBefore r fuel f k).triangles.toList ++
      frames.flatMap (·.triangles) := by
  induction h with
  | last _ shows => rw [shows.triangles, List.flatMap_singleton]
  | more returns shows _ ih =>
    rw [ih, Machine.pendingBefore_succ returns, shows.triangles, List.flatMap_cons,
      List.append_assoc]

end ShowsCalls

/-- Frames that partition the output of a number of calls of a new machine. -/
structure Partitions (r : Registry) (fuel : Nat) (f : Function) (n : Nat) (frames : List Frame) :
    Prop where
  length_eq : frames.length = n + 1
  /-- Every frame shows the end of its call, and what was added since the call before. -/
  shows {k : Nat} {frame : Frame} (at_k : frames[k]? = some frame) :
    ∃ stop, ({} : Machine).nthStop? r fuel f k = some stop ∧
      frame.Shows (k + 1) (({} : Machine).pendingBefore r fuel f k) stop
  /-- Nothing is shown twice, left out or left over from before. -/
  together : ∃ stop, ({} : Machine).nthStop? r fuel f n = some stop ∧
    frames.flatMap (·.console) = stop.2.output.console.toList ∧
    frames.flatMap (·.triangles) = stop.2.output.triangles.toList
  /-- Nothing is shown after a last frame. -/
  empty {j k : Nat} {earlier frame : Frame} (later : j < k) (at_j : frames[j]? = some earlier)
    (at_k : frames[k]? = some frame) (is_last : earlier.isLast = true) :
    frame.status = .finished ∧ frame.console = [] ∧ frame.triangles = [] ∧ frame.fault = none
  /-- A frame with a fault is the first that is a last one. -/
  fault {k : Nat} {frame : Frame} (at_k : frames[k]? = some frame) (faulted : frame.fault ≠ none) :
    frame.isLast = true ∧ ∀ j < k, ∀ earlier, frames[j]? = some earlier → earlier.isLast = false
  fault_unique {j k : Nat} {frame other : Frame} (at_j : frames[j]? = some frame)
    (at_k : frames[k]? = some other) (faulted : frame.fault ≠ none)
    (faulted_other : other.fault ≠ none) : j = k

namespace ShowsCalls

variable {frames : List Frame} {stop : Machine.Stop}

/-- Calls after the end of the run add nothing. -/
theorem empty (h : ShowsCalls r fuel f 0 n frames stop) {j k : Nat} {earlier frame : Frame}
    (hlater : j < k) (hj : frames[j]? = some earlier) (hk : frames[k]? = some frame)
    (hlast : earlier.isLast = true) :
    frame.status = .finished ∧ frame.console = [] ∧ frame.triangles = [] ∧ frame.fault = none := by
  obtain ⟨d, rfl⟩ : ∃ d, k = j + 1 + d := ⟨k - (j + 1), by omega⟩
  obtain ⟨lastStop, hreturns, hshows⟩ := h.exists_of_getElem? hj
  obtain ⟨after, hafter, hshows'⟩ := h.exists_of_getElem? hk
  rw [Nat.zero_add] at hreturns hafter hshows'
  have hfinished := hshows.isLast_iff.mp hlast
  rw [Machine.nthStop?_of_finished hreturns hfinished] at hafter
  rw [Machine.pendingBefore_of_finished hreturns hfinished] at hshows'
  obtain rfl := Option.some.inj hafter
  exact hshows'.empty hfinished

/-- A run ends with a fault, so that frames before it are no last ones. -/
theorem fault (h : ShowsCalls r fuel f 0 n frames stop) {k : Nat} {frame : Frame}
    (hk : frames[k]? = some frame) (hfault : frame.fault ≠ none) :
    frame.isLast = true ∧
      ∀ j < k, ∀ earlier, frames[j]? = some earlier → earlier.isLast = false := by
  constructor
  · obtain ⟨failed, hreturns, hshows⟩ := h.exists_of_getElem? hk
    obtain ⟨fault, herror⟩ := hshows.stop_of_fault hfault
    apply hshows.isLast_iff.mpr
    rcases Machine.consistent_of_nthStop? hreturns with hok | ⟨-, -, hfinished⟩
    · rw [herror] at hok
      cases hok
    · exact hfinished
  · intro j hj earlier hearlier
    by_contra hlast
    rw [Bool.not_eq_false] at hlast
    exact hfault (h.empty hj hearlier hk hlast).2.2.2

/-- Frames that show the calls of a new machine partition its output. -/
theorem partitions (h : ShowsCalls r fuel f 0 n frames stop) : Partitions r fuel f n frames where
  length_eq := h.length_eq
  shows hk := by
    have hshows := h.exists_of_getElem? hk
    rwa [Nat.zero_add] at hshows
  together := by
    have hreturns := h.returns
    rw [Nat.zero_add] at hreturns
    exact ⟨stop, hreturns, h.console.symm, h.triangles.symm⟩
  empty := h.empty
  fault := h.fault
  fault_unique := by
    intro j k frame other hj hk hfault hother
    rcases Nat.lt_trichotomy j k with hlt | heq | hgt
    · exact absurd (h.empty hlt hj hk (h.fault hj hfault).1).2.2.2 hother
    · exact heq
    · exact absurd (h.empty hgt hk hj (h.fault hk hother).1).2.2.2 hfault

end ShowsCalls

/-- The frames of a start and of a number of ticks show the calls of a new machine. -/
theorem Host.exists_showsCalls {host last : Host} {frames : List Frame}
    (happends : host.registry.OnlyAppends) (hplay : host.play fuel f n = some (frames, last)) :
    ∃ stop, ShowsCalls host.registry fuel f 0 n frames stop := by
  obtain ⟨stop, hstop, hfollow⟩ := play_eq_some.mp hplay
  obtain ⟨hfollows, hshows⟩ := follows_start hstop
  exact hfollows.showsCalls happends hshows hfollow

/-- Whatever state a host is in, the frames of a start and of a number of ticks partition the output
of as many calls of a new machine. They are played exactly if those calls return. Builtins must only
append to the output and depend on their arguments alone. -/
theorem Host.play_partitions (host : Host) (happends : host.registry.OnlyAppends) (fuel : Nat)
    (f : Function) (n : Nat) :
    ((∃ frames last, host.play fuel f n = some (frames, last)) ↔
        ∃ stop, ({} : Machine).nthStop? host.registry fuel f n = some stop) ∧
      ∀ frames last, host.play fuel f n = some (frames, last) →
        Partitions host.registry fuel f n frames := by
  constructor
  · constructor
    · rintro ⟨frames, last, hplay⟩
      obtain ⟨stop, hstop, hfollow⟩ := play_eq_some.mp hplay
      obtain ⟨hfollows, hshows⟩ := follows_start hstop
      obtain ⟨stop', hcalls⟩ := hfollows.showsCalls happends hshows hfollow
      have hreturns := hcalls.returns
      rw [Nat.zero_add] at hreturns
      exact ⟨stop', hreturns⟩
    · rintro ⟨stop', hstop'⟩
      obtain ⟨stop, hstop⟩ := Machine.exists_nthStop?_of_le hstop' (Nat.zero_le n)
      obtain ⟨hfollows, -⟩ := follows_start hstop
      rw [← Nat.zero_add n] at hstop'
      obtain ⟨frames, last, hfollow⟩ := hfollows.exists_follow happends hstop'
      exact ⟨frames, last, play_eq_some.mpr ⟨stop, hstop, hfollow⟩⟩
  · intro frames last hplay
    obtain ⟨stop, hstop, hfollow⟩ := play_eq_some.mp hplay
    obtain ⟨hfollows, hshows⟩ := follows_start hstop
    obtain ⟨stop', hcalls⟩ := hfollows.showsCalls happends hshows hfollow
    exact hcalls.partitions

/-- A host in the middle of a program, with output that nobody took. -/
def Host.interrupted (f : Function) : Host where
  registry := .standard
  machine := { function := f, ip := 5, status := .suspended, output := { console := #["untaken"] } }
  ticks := 7

/-- The line that nobody took is in no frame, the fault is in the second, and the third is empty. -/
theorem Host.play_partitions_interrupted :
    ∃ f, Program.brokenOff.compile .standard = .ok f ∧ Registry.standard.OnlyAppends ∧
      ∃ frames last, (interrupted f).play 20 f 2 = some (frames, last) ∧
        frames.map (·.console) = [["true"], ["false"], []] ∧
        frames.map (·.fault) = [none, some (.noTarget .goto), none] ∧
        Partitions .standard 20 f 2 frames := by
  obtain ⟨f, hcompile, frames, last, hplay, hconsole, hfault⟩ :
      ∃ f, Program.brokenOff.compile .standard = .ok f ∧
      ∃ frames last, (interrupted f).play 20 f 2 = some (frames, last) ∧
        frames.map (·.console) = [["true"], ["false"], []] ∧
        frames.map (·.fault) = [none, some (.noTarget .goto), none] :=
    ⟨_, rfl, _, _, rfl, rfl, rfl⟩
  have happends := Registry.standard_onlyAppends
  exact ⟨f, hcompile, happends, frames, last, hplay, hconsole, hfault,
    (play_partitions (interrupted f) happends 20 f 2).2 frames last hplay⟩

end FrameScript
