import TdmaSoc.Lib.Machine
import TdmaSoc.ReCOP.Refinement

/-!
# Reset

The processor with its `reset` input. Most processes have `reset` before the test of the edge, so their
registers clear as soon as it is high; `z1gen` waits for the clock, and the memories have no reset, so their
address registers take at the edge what the cleared registers drive. After one edge nothing is left of the
state before but the words of the data memory (`edge_reset`).
-/

namespace TdmaSoc
namespace Recop

/-- `reset` has gone high and there has been no edge since. -/
def asserted (s : Recop) : Recop := { s.reset with zFlag := s.zFlag }

/-- A rising edge with `reset` high. -/
def resetEdge (s : Recop) : Recop :=
  { s.reset with
    progMemAddress := s.fetch.progMemIn
    dm := s.dm.clock (dataMemInAddr s.cu.dmSelAddr s.ir.operand s.pc.pcOut s.rxValue s.rzValue)
      (dataMemInData s.cu.dmSelIn s.ir.operand s.pc.pcOut s.rxValue) s.cu.dmWrite }

/-- A rising edge, `reset` being high or low since the one before it. -/
def edge (rom : ProgMem) (s : Recop) (reset : Bool) : Recop :=
  if reset then s.asserted.resetEdge else s.clock rom

/-- The processor from power-on, with `mem` in its data memory. -/
def machine (rom : ProgMem) (mem : BitVec 12 → Word) : Machine Recop Bool := ⟨blank mem, edge rom⟩

variable (rom : ProgMem)

theorem edge_reset (s : Recop) : s.edge rom true = blank s.dm.cells := rfl

/-- A second edge with `reset` high finds what the first has left. -/
theorem runFrom_reset (mem : BitVec 12 → Word) (s : Recop) (k : Nat) :
    (machine rom mem).runFrom s (List.replicate (k + 1) true) = blank s.dm.cells := by
  induction k generalizing s with
  | zero => exact edge_reset rom s
  | succ k ih =>
    rw [List.replicate_succ, Machine.runFrom_cons]
    exact ih (blank s.dm.cells)

theorem runFrom_free (mem : BitVec 12 → Word) (s : Recop) (t : Nat) :
    (machine rom mem).runFrom s (List.replicate t false) = (clock rom)^[t] s := by
  induction t generalizing s with
  | zero => rfl
  | succ t ih =>
    rw [List.replicate_succ, Machine.runFrom_cons]
    exact ih (s.clock rom)

/-- Reset edges at power-on change nothing. -/
theorem run_powerOn (mem : BitVec 12 → Word) (j : Nat) :
    (machine rom mem).run (List.replicate j true) = blank mem := by
  cases j with
  | zero => rfl
  | succ k => exact runFrom_reset rom mem (blank mem) k

/-- From power-on without further reset: the runs that `refines` is about. -/
theorem run_free (mem : BitVec 12 → Word) (j t : Nat) :
    (machine rom mem).run (List.replicate j true ++ List.replicate t false) = (blank mem).after rom t := by
  rw [Machine.run_append, run_powerOn, runFrom_free]
  rfl

/-- Reset forgets everything but the data memory. After any run `before`, wherever in an instruction it has
come to, `k + 1` edges with `reset` high leave a processor whose state is, `t` clocks after its release, that
of a processor from power-on, `reset` high for `j` edges, which started on the same data memory. -/
theorem reset_forgets (rom : ProgMem) (mem : BitVec 12 → Word) (before : List Bool) (k j t : Nat) :
    ((machine rom mem).run (before ++ List.replicate (k + 1) true ++ List.replicate t false)).arch =
      ((machine rom ((machine rom mem).run before).dm.cells).run
        (List.replicate j true ++ List.replicate t false)).arch := by
  have hreset : (machine rom mem).run (before ++ List.replicate (k + 1) true) =
      blank ((machine rom mem).run before).dm.cells := by
    rw [Machine.run_append, runFrom_reset]
  rw [Machine.run_append, hreset, runFrom_free, run_free]
  rfl

end Recop
end TdmaSoc
