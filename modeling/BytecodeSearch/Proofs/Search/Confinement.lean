import BytecodeSearch.Proofs.Machine.Confined
import BytecodeSearch.Proofs.Search.Canonical

/-!
# Edited programs keep to their registers

An edit that uses so many registers writes operands that name these only, and undoing it brings back
such operands. So the programs of a search that uses `K` registers, behind any calls, have nothing to do
with the registers from `K` on: a run to its end leaves them as they were, and nothing else depends on
what they hold (`confined_of_calls`).
-/

set_option autoImplicit false

namespace BytecodeSearch

/-- The instruction of a canonical slot names registers that are in use. -/
theorem Slot.IsCanonical.lt_of_mem_registers {pos last registers : Nat} {s : Slot} {op : Opcode}
    {i : Instr pos} (h : s.IsCanonical pos last registers)
    (hop : Opcode.ofWord? s.opcode = some op) (hi : s.decodeArgs pos op = .ok i) {r : Reg}
    (hr : r ∈ i.registers) : r.val < registers := by
  obtain ⟨op', hop', -, hargs⟩ := isCanonical_iff.mp h
  obtain rfl := Option.some.inj (hop.symm.trans hop')
  obtain ⟨w, hw, hwr⟩ := register_of_decodeArgs hi hr
  rw [← zip_take_args] at hw
  rw [← hwr]
  exact List.forall₂_zip hargs hw

theorem Code.IsCanonical.usesBelow {registers length : Nat} {code : Array Word}
    (h : IsCanonical registers code length) : UsesBelow registers code length :=
  fun pos hlt hpos _ _ hop hi _ hr => (h.slots pos hlt hpos).lt_of_mem_registers hop hi hr

namespace Editor

open Machine

variable {σ ρ : Type} [Sensors σ] [Generator ρ]

/-- **Registers that are not in use are out of reach.** Let calls with so many registers have edited the
empty program, whatever the generator. From any machine at rest and for any answers, the calls of a run
of the program leave the other registers as they were. Machines that differ in these registers only come
to the same results and go on to differ in them only: in no other register, nor in memory, output, host,
cursor or count. And a run from a slot boundary comes to its end. -/
theorem confined_of_calls (speed : Nat) {registers : Nat} {cs : List Call}
    (hcs : ∀ k, Call.mutate k ∈ cs → k = registers) (g : ρ) :
    let p := (Call.runAll (call speed) cs (ofProgram Program.empty) g).2.1.program
    let count := Edit.clampRegisters registers
    ∀ m : Machine σ, m.isSuspended = false → ∀ (cursor : Nat) (answers : Nat → Word),
      (∀ n (r : Reg), count ≤ r.val →
        (chain p.code p.length cursor answers m n).1.get r = m.get r) ∧
      (∀ t, AgreesBelow count m t → ∀ n,
        (chain p.code p.length cursor answers t n).2 =
            (chain p.code p.length cursor answers m n).2 ∧
          AgreesBelow count (chain p.code p.length cursor answers m n).1
            (chain p.code p.length cursor answers t n).1) ∧
      (cursor % slotWidth = 0 →
        ∃ n, (∀ j < n, isPause (chain p.code p.length cursor answers m j).2 = true) ∧
          (chain p.code p.length cursor answers m n).2 = .ok .completed) := by
  intro p count m hm cursor answers
  have hevolved : Evolved speed registers _ := Evolved.start.runAll hcs g
  have hcanonical := hevolved.isCanonical
  have huses : Code.UsesBelow count p.code p.length := hcanonical.words.usesBelow
  have hrest : m.pending = none := by simpa [isSuspended] using hm
  have hpending : PendingBelow count m := by
    intro dst hdst
    rw [hrest] at hdst
    cases hdst
  refine ⟨fun n r hr => ?_, fun t hagrees n => ?_, fun hcursor => ?_⟩
  · exact get_chain huses cursor answers hpending n hr
  · exact hagrees.chain huses cursor answers hpending n
  · exact exists_chain_completed hcanonical.program.valid hcursor answers hrest

/-- Two edits with two registers, the first of them undone. What is left calls the host with the second
register, for the first one. -/
def small : Program :=
  (Call.runAll (call 1) [.mutate 2, .rollback, .mutate 2] (ofProgram Program.empty) appending).2.1.program

theorem confined_small : (∀ k, Call.mutate k ∈ [.mutate 2, .rollback, .mutate 2] → k = 2) ∧
    small.length = 4 ∧ ∀ n, (chain small.code small.length 0 (fun _ => 9)
      ((fresh 4 NoHost.mk).put 7 5) n).1.get 7 = 5 := by
  have hcs : ∀ k, Call.mutate k ∈ [Call.mutate 2, .rollback, .mutate 2] → k = 2 := by simp
  have hlength : small.length = 4 := by decide +kernel
  refine ⟨hcs, hlength, fun n => ?_⟩
  exact (confined_of_calls 1 hcs appending ((fresh 4 NoHost.mk).put 7 5) rfl 0
    fun _ => 9).1 n 7 (by decide)

end Editor

end BytecodeSearch
