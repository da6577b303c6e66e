import FrameScript.Code
import Mathlib.Data.List.Basic

/-!
# Code without suspensions

When the instructions that suspend are taken out of code, the others move up and keep their order.
Where one of them moves to is told by counting those that stay before it, and jumps are changed
accordingly.
-/

namespace FrameScript

/-- An operand with its jump target changed, if it has one. -/
def Operand.moved (move : Nat → Nat) : Operand → Operand
  | .jump target => .jump (move target)
  | operand => operand

/-- An operand depends only on where its own target moves to. -/
theorem Operand.moved_congr {move move' : Nat → Nat} {operand : Operand}
    (h : ∀ target, operand = .jump target → move target = move' target) :
    operand.moved move = operand.moved move' := by
  cases operand with
  | jump target => exact congrArg jump (h target rfl)
  | _ => rfl

namespace Instruction

/-- Whether an instruction stays when those that suspend are taken out. -/
def kept (i : Instruction) : Bool :=
  i.op != .suspend

/-- The same instruction with its jump target changed, if it has one. -/
def moved (move : Nat → Nat) (i : Instruction) : Instruction :=
  { i with operand := i.operand.moved move }

/-- An instruction depends only on where its own target moves to. -/
theorem moved_congr {move move' : Nat → Nat} {i : Instruction}
    (h : ∀ target, i.operand = .jump target → move target = move' target) :
    i.moved move = i.moved move' :=
  congrArg (mk i.op) (Operand.moved_congr h)

/-- An instruction that neither suspends nor names a target. -/
def Plain (i : Instruction) : Prop :=
  i.op ≠ .suspend ∧ ∀ target, i.operand ≠ .jump target

/-- An operand that names no target does not change. -/
theorem Plain.moved_operand {i : Instruction} (h : i.Plain) (move : Nat → Nat) :
    i.operand.moved move = i.operand := by
  cases hoperand : i.operand with
  | jump target => exact absurd hoperand (h.2 target)
  | _ => rfl

end Instruction

/-- How many instructions before an index stay when those that suspend are taken out. This is the
index that its instruction then has. -/
def keptBefore (code : Array Instruction) (index : Nat) : Nat :=
  (code.toList.take index).countP Instruction.kept

/-- Code without the instructions that suspend. Jumps lead to the same instructions as before, or
to what follows those that are gone. -/
def uninterruptedCode (code : Array Instruction) : Array Instruction :=
  ((code.toList.filter Instruction.kept).map (Instruction.moved (keptBefore code))).toArray

/-- The function without the instructions that suspend. -/
def Function.uninterrupted (f : Function) : Function where
  instructions := uninterruptedCode f.instructions
  localCount := f.localCount

section

variable {code code' : Array Instruction} {i : Instruction} {index target : Nat}

/-- An instruction counts for those behind it if it stays. -/
theorem keptBefore_succ (h : code[index]? = some i) :
    keptBefore code (index + 1) = keptBefore code index + if i.kept then 1 else 0 := by
  rw [← Array.getElem?_toList] at h
  rw [keptBefore, keptBefore, List.take_add_one, List.countP_append, h, Option.toList_some,
    List.countP_singleton]

/-- Only the opcodes before an index count. -/
theorem keptBefore_congr (h : ∀ k < index, code[k]?.map (·.op) = code'[k]?.map (·.op)) :
    keptBefore code index = keptBefore code' index := by
  have hops : (code.toList.take index).map (·.op) = (code'.toList.take index).map (·.op) := by
    refine List.ext_getElem? fun k => ?_
    rw [List.getElem?_map, List.getElem?_map]
    by_cases hk : k < index
    · rw [List.getElem?_take_of_lt hk, List.getElem?_take_of_lt hk, Array.getElem?_toList,
        Array.getElem?_toList]
      exact h k hk
    · rw [List.getElem?_take_eq_none (Nat.le_of_not_lt hk),
        List.getElem?_take_eq_none (Nat.le_of_not_lt hk)]
  have hcount := congrArg (List.countP (· != .suspend)) hops
  rwa [List.countP_map, List.countP_map] at hcount

/-- What is added behind an index does not count before it. -/
theorem keptBefore_push (h : index ≤ code.size) :
    keptBefore (code.push i) index = keptBefore code index :=
  keptBefore_congr fun k hk => by
    have hne : k ≠ code.size := by omega
    rw [Array.getElem?_push, if_neg hne]

/-- Aiming a jump does not change which instructions stay. -/
theorem keptBefore_modify (index target : Nat) :
    keptBefore (code.modify index (·.aimedAt target)) = keptBefore code := by
  funext last
  refine keptBefore_congr fun k _ => ?_
  rw [Array.getElem?_modify]
  split
  · rw [Option.map_map]
    rfl
  · rfl

/-- As much code is left as there are instructions that stay. -/
theorem size_uninterruptedCode : (uninterruptedCode code).size = keptBefore code code.size := by
  rw [uninterruptedCode, List.size_toArray, List.length_map, ← List.countP_eq_length_filter,
    keptBefore, ← Array.length_toList, List.take_length]

/-- An instruction that stays has the index that counts those before it. -/
theorem getElem?_uninterruptedCode (h : code[index]? = some i) (hkept : i.kept = true) :
    (uninterruptedCode code)[keptBefore code index]? = some (i.moved (keptBefore code)) := by
  rw [← Array.getElem?_toList] at h
  obtain ⟨hlt, rfl⟩ := List.getElem?_eq_some_iff.mp h
  have hsplit : code.toList.filter Instruction.kept =
      (code.toList.take index).filter Instruction.kept ++
        code.toList[index] :: (code.toList.drop (index + 1)).filter Instruction.kept := by
    conv => lhs; rw [← List.take_append_drop index code.toList, List.drop_eq_getElem_cons hlt]
    rw [List.filter_append, List.filter_cons_of_pos hkept]
  rw [uninterruptedCode, List.getElem?_toArray, List.getElem?_map, hsplit, keptBefore,
    List.countP_eq_length_filter, List.getElem?_append_right (Nat.le_refl _), Nat.sub_self]
  rfl

/-- A new instruction that stays is added behind the others. -/
theorem uninterruptedCode_push (hkept : i.kept = true)
    (hinside : ∀ j ∈ code, ∀ target, j.operand = .jump target → target ≤ code.size)
    (htarget : ∀ target, i.operand = .jump target → target ≤ code.size) :
    uninterruptedCode (code.push i) =
      (uninterruptedCode code).push (i.moved (keptBefore code)) := by
  have hmoved : ∀ j : Instruction, (∀ target, j.operand = .jump target → target ≤ code.size) →
      j.moved (keptBefore (code.push i)) = j.moved (keptBefore code) := fun j hj =>
    Instruction.moved_congr fun target h => keptBefore_push (hj target h)
  have hmap : (code.toList.filter Instruction.kept).map
      (Instruction.moved (keptBefore (code.push i))) =
      (code.toList.filter Instruction.kept).map (Instruction.moved (keptBefore code)) :=
    List.map_congr_left fun j hj =>
      hmoved j (hinside j (Array.mem_toList_iff.mp (List.mem_of_mem_filter hj)))
  rw [uninterruptedCode, Array.toList_push, List.filter_append, List.map_append, hmap,
    List.filter_cons_of_pos hkept, List.filter_nil, List.map_singleton, hmoved i htarget,
    uninterruptedCode, List.push_toArray]

/-- An instruction that suspends leaves nothing behind when it is taken out again. -/
theorem uninterruptedCode_push_suspend
    (hinside : ∀ j ∈ code, ∀ target, j.operand = .jump target → target ≤ code.size) :
    uninterruptedCode (code.push { op := .suspend }) = uninterruptedCode code := by
  rw [uninterruptedCode, uninterruptedCode, Array.toList_push, List.filter_append,
    List.filter_cons_of_neg (by decide), List.filter_nil, List.append_nil]
  refine congrArg List.toArray (List.map_congr_left fun j hj => ?_)
  refine Instruction.moved_congr fun target h => keptBefore_push ?_
  exact hinside j (Array.mem_toList_iff.mp (List.mem_of_mem_filter hj)) target h

/-- A jump that stays can be aimed before the others are taken out or afterwards. -/
theorem filter_kept_modify (move : Nat → Nat) : ∀ {part : List Instruction} {index : Nat},
    part[index]? = some i → i.kept = true →
    ((part.modify index (·.aimedAt target)).filter Instruction.kept).map (Instruction.moved move) =
      ((part.filter Instruction.kept).map (Instruction.moved move)).modify
        ((part.take index).countP Instruction.kept) (·.aimedAt (move target))
  | [], _, h, _ => by simp at h
  | j :: part, 0, h, hkept => by
    cases h
    have haimed : (i.aimedAt target).kept = true := hkept
    rw [List.modify_zero_cons, List.filter_cons_of_pos haimed, List.filter_cons_of_pos hkept]
    rfl
  | j :: part, index + 1, h, hkept => by
    have htail : part[index]? = some i := h
    have ih := filter_kept_modify move htail hkept
    rw [List.modify_succ_cons, List.take_succ_cons]
    cases hj : j.kept with
    | true =>
      rw [List.filter_cons_of_pos hj, List.filter_cons_of_pos hj, List.map_cons, List.map_cons,
        List.countP_cons_of_pos hj, List.modify_succ_cons, ih]
    | false =>
      have hgone : ¬j.kept = true := by simp [hj]
      rw [List.filter_cons_of_neg hgone, List.filter_cons_of_neg hgone,
        List.countP_cons_of_neg hgone, ih]

/-- Aiming a jump is aiming it where it has moved to. -/
theorem uninterruptedCode_modify (h : code[index]? = some i) (hkept : i.kept = true) :
    uninterruptedCode (code.modify index (·.aimedAt target)) =
      (uninterruptedCode code).modify (keptBefore code index)
        (·.aimedAt (keptBefore code target)) := by
  rw [← Array.getElem?_toList] at h
  rw [uninterruptedCode, keptBefore_modify, Array.toList_modify, filter_kept_modify _ h hkept,
    uninterruptedCode, List.modify_toArray]
  rfl

end

end FrameScript
