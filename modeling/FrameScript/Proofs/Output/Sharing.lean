import FrameScript.Output.Handles
import Mathlib.Data.List.DropRight
import Mathlib.Data.List.Induction

/-!
# Shared output

Handles that descend from the same creation share one output. What is pending there is a matter of
the requests that came through any of these handles: everything that was put in since the last time
that it was taken or cleared, in order, and each kind of output for itself. Other families of
handles do not notice.
-/

namespace FrameScript

namespace Handles

/-- What a host or a script can ask for. -/
inductive Request where
  | create
  | copy (handle : Nat)
  | print (handle : Nat) (line : String)
  | draw (handle : Nat) (triangle : Triangle)
  | clear (handle : Nat)
  | takeConsole (handle : Nat)
  | takeTriangles (handle : Nat)

/-- Carries out a request. -/
def perform (h : Handles) : Request → Handles
  | .create => h.create
  | .copy handle => h.copy handle
  | .print handle line => h.print handle line
  | .draw handle triangle => h.draw handle triangle
  | .clear handle => h.clear handle
  | .takeConsole handle => (h.takeConsole handle).2
  | .takeTriangles handle => (h.takeTriangles handle).2

/-- The handles after a number of requests. -/
def after (history : List Request) : Handles :=
  history.foldl perform {}

/-! ### Families -/

namespace Request

/-- The handle that a request comes through. -/
def handle? : Request → Option Nat
  | .create => none
  | .copy handle | .print handle _ | .draw handle _ | .clear handle | .takeConsole handle
  | .takeTriangles handle => some handle

/-- The family that a request comes from, given the family of each handle that there is. -/
def family? (q : Request) (origins : Array Nat) : Option Nat :=
  q.handle?.bind (origins[·]?)

/-- The family of each handle that there is after a request. A family has the name of its first
handle. -/
def extend (q : Request) (origins : Array Nat) : Array Nat :=
  match q with
  | .create => origins.push origins.size
  | .copy handle =>
    match origins[handle]? with
    | none => origins
    | some family => origins.push family
  | _ => origins

end Request

/-- For each handle the one that was created and that it descends from. -/
def origins (history : List Request) : Array Nat :=
  history.foldl (fun origins q => q.extend origins) #[]

/-- The requests that come from a family, where some handles are there at first. -/
def requestsFrom (family : Nat) : Array Nat → List Request → List Request
  | _, [] => []
  | origins, q :: rest =>
    let later := requestsFrom family (q.extend origins) rest
    if q.family? origins = some family then q :: later else later

/-- The requests that came through any handle of a family, in order. -/
def requestsOf (family : Nat) (history : List Request) : List Request :=
  requestsFrom family #[] history

/-- The last request of a history is carried out last. -/
@[simp] theorem after_concat (history : List Request) (q : Request) :
    after (history ++ [q]) = (after history).perform q := by
  simp [after]

/-- The last request of a history may add a handle to those before. -/
@[simp] theorem origins_concat (history : List Request) (q : Request) :
    origins (history ++ [q]) = q.extend (origins history) := by
  simp [origins]

/-- The last request counts for a family if its handle belongs to this family by then. -/
theorem requestsFrom_concat {family : Nat} {history : List Request} {q : Request}
    {first : Array Nat} : requestsFrom family first (history ++ [q]) =
      requestsFrom family first history ++
        if q.family? (history.foldl (fun origins q => q.extend origins) first) = some family
        then [q] else [] := by
  induction history generalizing first with
  | nil => rfl
  | cons q' history ih =>
    simp only [List.cons_append, requestsFrom, ih, List.foldl_cons]
    split <;> rfl

/-- The last request of a history joins those of its family. -/
@[simp] theorem requestsOf_concat (family : Nat) (history : List Request) (q : Request) :
    requestsOf family (history ++ [q]) = requestsOf family history ++
      if q.family? (origins history) = some family then [q] else [] :=
  requestsFrom_concat

/-! ### What is pending -/

/-- What is left of the items that requests put in, if some requests forget all items before. -/
def pending {α : Type} (forgets : Request → Bool) (item? : Request → Option α)
    (requests : List Request) : List α :=
  (requests.rtakeWhile fun q => !forgets q).filterMap item?

/-- The last request forgets the items before it, or adds its own. -/
theorem pending_concat {α : Type} (forgets : Request → Bool) (item? : Request → Option α)
    (requests : List Request) (q : Request) :
    pending forgets item? (requests ++ [q]) =
      if forgets q then [] else pending forgets item? requests ++ (item? q).toList := by
  rw [pending, List.rtakeWhile_concat]
  cases forgets q with
  | true => rfl
  | false => simp [pending, List.filterMap_cons]; cases item? q <;> rfl

namespace Request

/-- The line that a request prints. -/
def line? : Request → Option String
  | .print _ line => some line
  | _ => none

/-- The triangle that a request draws. -/
def triangle? : Request → Option Triangle
  | .draw _ triangle => some triangle
  | _ => none

/-- Whether no console lines are left after a request. -/
def emptiesConsole : Request → Bool
  | .takeConsole _ | .clear _ => true
  | _ => false

/-- Whether no triangles are left after a request. -/
def emptiesTriangles : Request → Bool
  | .takeTriangles _ | .clear _ => true
  | _ => false

/-- What a request does to the output of its family. -/
def change : Request → Output → Output
  | .create, output | .copy _, output => output
  | .print _ line, output => output.print line
  | .draw _ triangle, output => output.draw triangle
  | .clear _, _ => {}
  | .takeConsole _, output => output.dropConsole
  | .takeTriangles _, output => output.dropTriangles

end Request

/-- The lines printed since the console was taken or everything was cleared. -/
def pendingLines (requests : List Request) : List String :=
  pending Request.emptiesConsole Request.line? requests

/-- The triangles drawn since the triangles were taken or everything was cleared. -/
def pendingTriangles (requests : List Request) : List Triangle :=
  pending Request.emptiesTriangles Request.triangle? requests

/-- The output that requests leave behind. -/
def pendingOutput (requests : List Request) : Output where
  console := (pendingLines requests).toArray
  triangles := (pendingTriangles requests).toArray

/-- Request by request, the pending lines and triangles change like one output. -/
theorem pendingOutput_concat (requests : List Request) (q : Request) :
    pendingOutput (requests ++ [q]) = q.change (pendingOutput requests) := by
  rw [pendingOutput, pendingLines, pendingTriangles, pending_concat, pending_concat]
  cases q <;> simp [Request.change, Request.emptiesConsole, Request.emptiesTriangles, Request.line?,
    Request.triangle?, pendingOutput, pendingLines, pendingTriangles, Output.print, Output.draw,
    Output.dropConsole, Output.dropTriangles]

/-! ### Steps -/

variable {h : Handles} {history : List Request} {q : Request}

/-- A change through a handle is seen through the handles of the same output, and no others. -/
theorem output?_update {handle a : Nat} {change : Output → Output} :
    (h.update handle change).output? a =
      if h.owners[handle]? = h.owners[a]? then (h.output? a).map change else h.output? a := by
  unfold update output?
  cases hhandle : h.owners[handle]? with
  | none =>
    cases h.owners[a]? <;> simp
  | some owner =>
    cases h.owners[a]? with
    | none => simp
    | some owner' => simp [Array.getElem?_modify]

/-- Taking one kind of output leaves the other pending. -/
theorem triangles_takeConsole (h : Handles) (handle a : Nat) :
    (h.takeConsole handle).2.triangles a = h.triangles a := by
  rw [takeConsole, triangles, triangles, output?_update]
  by_cases hsame : h.owners[handle]? = h.owners[a]?
  · rw [if_pos hsame]
    cases h.output? a <;> rfl
  · rw [if_neg hsame]

/-- Taking the triangles leaves the lines of the console pending. -/
theorem console_takeTriangles (h : Handles) (handle a : Nat) :
    (h.takeTriangles handle).2.console a = h.console a := by
  rw [takeTriangles, console, console, output?_update]
  by_cases hsame : h.owners[handle]? = h.owners[a]?
  · rw [if_pos hsame]
    cases h.output? a <;> rfl
  · rw [if_neg hsame]

/-- Handles that agree with a history: they lead to the same output exactly if they descend from the
same creation, and there is pending what the requests of their family left behind. -/
structure Tracks (history : List Request) (h : Handles) : Prop where
  size_eq : h.owners.size = (origins history).size
  owner_lt : ∀ {a owner : Nat}, h.owners[a]? = some owner → owner < h.outputs.size
  origin_lt : ∀ {a family : Nat}, (origins history)[a]? = some family →
    family < (origins history).size
  owner_eq_iff : ∀ a b : Nat,
    h.owners[a]? = h.owners[b]? ↔ (origins history)[a]? = (origins history)[b]?
  unborn : ∀ {family : Nat}, (origins history).size ≤ family → requestsOf family history = []
  output_eq : ∀ {a family : Nat}, (origins history)[a]? = some family →
    h.output? a = some (pendingOutput (requestsOf family history))

namespace Tracks

variable (ht : Tracks history h)

include ht

/-- No request comes from a family that is not there yet. -/
theorem family?_ne {family : Nat} (hfamily : (origins history).size ≤ family) :
    q.family? (origins history) ≠ some family := by
  intro heq
  obtain ⟨handle, -, horigin⟩ := Option.bind_eq_some_iff.mp heq
  have hlt := ht.origin_lt horigin
  omega

/-- A request that adds no handle changes the output of its family. -/
theorem update (hq : q.extend (origins history) = origins history) {handle : Nat}
    (hhandle : q.handle? = some handle) :
    Tracks (history ++ [q]) (h.update handle q.change) := by
  have howners : (h.update handle q.change).owners = h.owners := by
    unfold Handles.update
    split <;> rfl
  have hsize : (h.update handle q.change).outputs.size = h.outputs.size := by
    unfold Handles.update
    split <;> simp
  have horigins : origins (history ++ [q]) = origins history := by rw [origins_concat, hq]
  have hfamily : q.family? (origins history) = (origins history)[handle]? := by
    rw [Request.family?, hhandle]
    rfl
  exact {
    size_eq := by rw [howners, horigins, ht.size_eq]
    owner_lt := by
      rw [howners, hsize]
      exact ht.owner_lt
    origin_lt := by
      rw [horigins]
      exact ht.origin_lt
    owner_eq_iff := by
      rw [howners, horigins]
      exact ht.owner_eq_iff
    unborn := fun hunborn => by
      rw [horigins] at hunborn
      rw [requestsOf_concat, if_neg (ht.family?_ne hunborn), List.append_nil, ht.unborn hunborn]
    output_eq := fun {a family} horigin => by
      rw [horigins] at horigin
      have hsame : h.owners[handle]? = h.owners[a]? ↔
          q.family? (origins history) = some family := by
        rw [ht.owner_eq_iff, horigin, hfamily]
      rw [output?_update, requestsOf_concat, ht.output_eq horigin]
      by_cases hcase : q.family? (origins history) = some family
      · rw [if_pos hcase, if_pos (hsame.mpr hcase), pendingOutput_concat]
        rfl
      · rw [if_neg hcase, if_neg (mt hsame.mp hcase), List.append_nil] }

/-- A request that adds a handle changes no output. Another handle leads to the same output exactly
if it is of the same family. -/
theorem grow {h' : Handles} {owner family : Nat} (howners : h'.owners = h.owners.push owner)
    (horigins : q.extend (origins history) = (origins history).push family)
    (hkept : ∀ index < h.outputs.size, h'.outputs[index]? = h.outputs[index]?)
    (hchange : ∀ output, q.change output = output)
    (hsame : ∀ a : Nat, h.owners[a]? = some owner ↔ (origins history)[a]? = some family)
    (hfamily : family ≤ (origins history).size)
    (hnew : h'.outputs[owner]? = some (pendingOutput (requestsOf family history))) :
    Tracks (history ++ [q]) h' := by
  have hpending (family : Nat) : pendingOutput (requestsOf family (history ++ [q])) =
      pendingOutput (requestsOf family history) := by
    rw [requestsOf_concat]
    split
    · rw [pendingOutput_concat, hchange]
    · rw [List.append_nil]
  have howner (a : Nat) : h'.owners[a]? =
      if a = (origins history).size then some owner else h.owners[a]? := by
    rw [howners, Array.getElem?_push, ht.size_eq]
  have horigin (a : Nat) : (origins (history ++ [q]))[a]? =
      if a = (origins history).size then some family else (origins history)[a]? := by
    rw [origins_concat, horigins, Array.getElem?_push]
  have hsize : (origins (history ++ [q])).size = (origins history).size + 1 := by
    rw [origins_concat, horigins, Array.size_push]
  have hlt {index : Nat} (hindex : index < h.outputs.size) : index < h'.outputs.size := by
    have hget := hkept index hindex
    rw [Array.getElem?_eq_getElem hindex] at hget
    exact (Array.getElem?_eq_some_iff.mp hget).1
  exact {
    size_eq := by rw [howners, Array.size_push, hsize, ht.size_eq]
    owner_lt := fun {a other} hother => by
      rw [howner] at hother
      split at hother
      · cases hother
        exact (Array.getElem?_eq_some_iff.mp hnew).1
      · exact hlt (ht.owner_lt hother)
    origin_lt := fun {a other} hother => by
      rw [horigin] at hother
      rw [hsize]
      split at hother
      · cases hother
        exact Nat.lt_succ_of_le hfamily
      · exact Nat.lt_succ_of_lt (ht.origin_lt hother)
    owner_eq_iff := fun a b => by
      rw [howner, howner, horigin, horigin]
      split <;> split
      · exact iff_of_true rfl rfl
      · rw [eq_comm, hsame, eq_comm]
      · exact hsame a
      · exact ht.owner_eq_iff a b
    unborn := fun {other} hother => by
      rw [hsize] at hother
      have hborn : (origins history).size ≤ other := Nat.le_of_succ_le hother
      rw [requestsOf_concat, if_neg (ht.family?_ne hborn), List.append_nil, ht.unborn hborn]
    output_eq := fun {a other} hother => by
      rw [horigin] at hother
      rw [hpending, output?, howner]
      split at hother
      · next heq =>
        cases hother
        rw [if_pos heq]
        exact hnew
      · next hne =>
        have hbefore := ht.output_eq hother
        obtain ⟨index, hindex, hget⟩ := Option.bind_eq_some_iff.mp hbefore
        rw [if_neg hne, hindex]
        exact (hkept index (ht.owner_lt hindex)).trans hget }

/-- A new handle leads to an output of its own. -/
theorem create : Tracks (history ++ [.create]) h.create := by
  have hkept : ∀ index < h.outputs.size, h.create.outputs[index]? = h.outputs[index]? := by
    intro index hindex
    rw [Handles.create, Array.getElem?_push, if_neg (Nat.ne_of_lt hindex)]
  refine ht.grow rfl rfl hkept (fun _ => rfl) (fun a => ?_) (Nat.le_refl _) ?_
  · constructor
    · intro howner
      exact absurd (ht.owner_lt howner) (Nat.lt_irrefl _)
    · intro horigin
      exact absurd (ht.origin_lt horigin) (Nat.lt_irrefl _)
  · rw [ht.unborn (Nat.le_refl _)]
    exact Array.getElem?_push_size

/-- A copy of a handle leads to the same output. -/
theorem copy (handle : Nat) : Tracks (history ++ [.copy handle]) (h.copy handle) := by
  cases horigin : (origins history)[handle]? with
  | none =>
    have howner : h.owners[handle]? = none := by
      rw [Array.getElem?_eq_none_iff, ht.size_eq]
      exact Array.getElem?_eq_none_iff.mp horigin
    have hupdate := ht.update (q := .copy handle) (by rw [Request.extend, horigin]) rfl
    rw [Handles.update, howner] at hupdate
    rw [Handles.copy, howner]
    exact hupdate
  | some family =>
    obtain ⟨owner, howner, hget⟩ := Option.bind_eq_some_iff.mp (ht.output_eq horigin)
    have hcopy : h.copy handle = { h with owners := h.owners.push owner } := by
      rw [Handles.copy, howner]
    rw [hcopy]
    refine ht.grow rfl ?_ (fun _ _ => rfl) (fun _ => rfl) (fun a => ?_)
      (Nat.le_of_lt (ht.origin_lt horigin)) hget
    · rw [Request.extend, horigin]
    · rw [← howner, ← horigin, ht.owner_eq_iff]

end Tracks

/-- Every history is tracked, from no handles at all on. -/
theorem tracks_after (history : List Request) : Tracks history (after history) := by
  induction history using List.reverseRecOn with
  | nil =>
    exact ⟨rfl, by simp [after], by simp [origins], by simp [after, origins], fun _ => rfl,
      by simp [origins]⟩
  | append_singleton history q ih =>
    rw [after_concat]
    cases q with
    | create => exact ih.create
    | copy handle => exact ih.copy handle
    | print | draw | clear | takeConsole | takeTriangles => exact ih.update rfl rfl

/-! ### Histories -/

/-- A handle keeps its family. -/
theorem origins_of_concat {a family : Nat} (h : (origins history)[a]? = some family) :
    (origins (history ++ [q]))[a]? = some family := by
  obtain ⟨hlt, -⟩ := Array.getElem?_eq_some_iff.mp h
  rw [origins_concat]
  cases q with
  | create =>
    rw [Request.extend, Array.getElem?_push, if_neg (Nat.ne_of_lt hlt)]
    exact h
  | copy handle =>
    rw [Request.extend]
    split
    · exact h
    · rw [Array.getElem?_push, if_neg (Nat.ne_of_lt hlt)]
      exact h
  | print | draw | clear | takeConsole | takeTriangles => exact h

/-- What all handles report and hand out after a history. -/
structure Shares (history : List Request) : Prop where
  /-- Handles of one family report the same. -/
  reports_eq {a b : Nat} : (origins history)[a]? = (origins history)[b]? →
    (after history).console a = (after history).console b ∧
    (after history).triangles a = (after history).triangles b
  /-- What is pending was put in by the family since it was taken or cleared. -/
  console_eq {a family : Nat} : (origins history)[a]? = some family →
    (after history).console a = pendingLines (requestsOf family history)
  triangles_eq {a family : Nat} : (origins history)[a]? = some family →
    (after history).triangles a = pendingTriangles (requestsOf family history)
  /-- Who takes what is pending gets all of it. -/
  takeConsole_eq {a family : Nat} : (origins history)[a]? = some family →
    ((after history).takeConsole a).1 = pendingLines (requestsOf family history)
  takeTriangles_eq {a family : Nat} : (origins history)[a]? = some family →
    ((after history).takeTriangles a).1 = pendingTriangles (requestsOf family history)
  /-- Each kind is taken for itself. -/
  triangles_takeConsole (handle a : Nat) :
    ((after history).takeConsole handle).2.triangles a = (after history).triangles a
  console_takeTriangles (handle a : Nat) :
    ((after history).takeTriangles handle).2.console a = (after history).console a
  /-- Nothing that is asked for through other families is noticed. -/
  output?_eq {a family : Nat} (q : Request) : (origins history)[a]? = some family →
    q.family? (origins history) ≠ some family →
    ((after history).perform q).output? a = (after history).output? a

/-- Shared output loses and duplicates nothing, whatever is asked for through any handles in any
order. -/
theorem shares_after (history : List Request) : Shares history := by
  have htracks := tracks_after history
  have hconsole {a family : Nat} (horigin : (origins history)[a]? = some family) :
      (after history).console a = pendingLines (requestsOf family history) := by
    rw [console, htracks.output_eq horigin]
    rfl
  have htriangles {a family : Nat} (horigin : (origins history)[a]? = some family) :
      (after history).triangles a = pendingTriangles (requestsOf family history) := by
    rw [triangles, htracks.output_eq horigin]
    rfl
  refine ⟨fun {a b} hsame => ?_, hconsole, htriangles, hconsole, htriangles,
    triangles_takeConsole _, console_takeTriangles _, fun {a family} q horigin hother => ?_⟩
  · have howner := (htracks.owner_eq_iff a b).mpr hsame
    simp only [console, triangles, output?, howner, and_self]
  · have hlater := (tracks_after (history ++ [q])).output_eq (origins_of_concat horigin)
    rw [requestsOf_concat, if_neg hother, List.append_nil, after_concat] at hlater
    rw [hlater, htracks.output_eq horigin]

/-- A host that holds a copy of the handle of a script gets its lines, and gets them once. -/
example :
    let h := after [.create, .copy 0, .print 0 "hello", .create, .print 2 "aside", .print 1 "world"]
    (h.takeConsole 1).1 = ["hello", "world"] ∧ (h.takeConsole 1).2.console 0 = [] ∧
      (h.takeConsole 1).2.console 2 = ["aside"] := by
  decide

end Handles

end FrameScript
