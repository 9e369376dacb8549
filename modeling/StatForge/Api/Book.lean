import StatForge.Api.Isolation
import StatForge.StatKernel.Refinement
import Mathlib.Data.Option.Basic

/-!
# The C interface without its caches

What the C interface is for: a book of sheets, one for each live engine.  A call is answered by the
sheet of its engine, and the process keeps up with the book.

* `Book.step` — the calls of the interface, answered by sheets.
* `Process.Represents` — every live engine represents its sheet.
* `simulation` — the process simulates the book, from the checks of the arguments down to the values.
* `process_refines_book` — the same for runs.
-/

namespace StatForge.Api

open Dsl ExceptBind StepMachine StatForge.StatKernel

variable {D : Type} [Double D]

/-- The sheets of the live engines. -/
abbrev Book (D : Type) := Handle → Option (Sheet D)

/-- The code for an answer of a sheet. -/
def codeOfAnswer : Sheet.Answer D → Code
  | .failed code => .rejected code
  | _ => .ok

/-- The answer of a call which the sheet answers. -/
def Call.told : Call D → Sheet.Answer D → Answer D
  | .getNodeValue _ _ _, .value value => .read .ok (some value)
  | .getNodeValue _ _ outValue, answer => .read (codeOfAnswer answer) outValue
  | .getNodeValue2 _ _, .value value => .value .ok value
  | .getNodeValue2 _ _, answer => .value (codeOfAnswer answer) Double.zero
  | .resetEngine _, _ => .void
  | .evaluateEngine _, _ => .void
  | _, answer => .code (codeOfAnswer answer)

/-- An answer without the text of a message. -/
def Answer.untold : Answer D → Answer D
  | .message _ => .message []
  | answer => answer

namespace Book

def empty : Book D := fun _ => none

/-- A call of the interface, answered by the sheet of its engine. -/
noncomputable def step (book : Book D) (call : Call D) : Except Abort (Answer D × Book D) :=
  match call.request with
  | some (.error objection) => .ok (call.refused objection.code, book)
  | some (.ok (address, op)) =>
      match book address with
      | none => .error .undefined
      | some sheet => do
          let (answer, sheet) ← sheet.step op
          .ok (call.told answer, Function.update book address (some sheet))
  | none =>
      match call with
      | .createEngine address =>
          match book address with
          | none => .ok (.engine address, Function.update book address (some Sheet.empty))
          | some _ => .error .undefined
      | .destroyEngine (some address) =>
          match book address with
          | none => .error .undefined
          | some _ => .ok (.void, Function.update book address none)
      | .lastError => .ok (.message [], book)
      | _ => .ok (.void, book)

end Book

/-- The live engines are those of the book, and each represents its sheet. -/
def Process.Represents (process : Process D) (book : Book D) : Prop :=
  ∀ address, Option.Rel StatKernel.Represents (process.engines address) (book address)

section Represents

variable {process next : Process D} {book : Book D} {call : Call D} {answer : Answer D}

/-- A caller of the interface sees of a reply what the sheet tells. -/
theorem call_answered (call : Call D) (reply : Reply D) :
    call.answered reply = call.told reply.answer := by
  cases reply with
  | void => cases call <;> rfl
  | result result => cases result <;> cases call <;> rfl
  | value result => cases result <;> cases call <;> rfl

theorem untold_refused (call : Call D) (code : Code) :
    (call.refused code).untold = call.refused code := by
  cases call <;> rfl

theorem untold_told (call : Call D) (answer : Sheet.Answer D) :
    (call.told answer).untold = call.told answer := by
  cases answer <;> cases call <;> rfl

theorem Process.Represents.update (h : process.Represents book) (address : Handle)
    {engine : Option (StatKernel D)} {sheet : Option (Sheet D)}
    (hengine : Option.Rel StatKernel.Represents engine sheet) (text : StdString) :
    (⟨Function.update process.engines address engine, text⟩ : Process D).Represents
      (Function.update book address sheet) := by
  intro address'
  by_cases heq : address' = address
  · subst heq
    simpa using hengine
  · simpa [Function.update_of_ne heq] using h address'

theorem Process.Represents.performed (h : process.Represents book) {address : Handle}
    {kernel : StatKernel D} {sheet : Sheet D} (hkernel : kernel.Represents sheet) (reply : Reply D) :
    (process.performed address reply kernel).Represents
      (Function.update book address (some sheet)) := by
  intro address'
  rw [engines_performed]
  exact h.update address (.some hkernel) process.errorMessage address'

/-- A live engine has a sheet. -/
theorem Process.Represents.exists_sheet (h : process.Represents book) {address : Handle}
    {kernel : StatKernel D} (hengine : process.engines address = some kernel) :
    ∃ sheet, book address = some sheet ∧ kernel.Represents sheet := by
  have hrel := h address
  rw [hengine] at hrel
  cases hsheet : book address with
  | none => rw [hsheet] at hrel; cases hrel
  | some sheet =>
      rw [hsheet] at hrel
      cases hrel with
      | some hkernel => exact ⟨sheet, rfl, hkernel⟩

theorem Process.Represents.none_iff (h : process.Represents book) (address : Handle) :
    process.engines address = none ↔ book address = none := by
  have hrel := h address
  revert hrel
  rcases process.engines address with _ | kernel <;> rcases book address with _ | sheet <;>
    intro hrel <;> simp at hrel ⊢

/-- The call runs an evaluation pass. -/
def Call.IsPass (call : Call D) : Prop :=
  ∃ address, call.request = some (.ok (address, .evaluate))

theorem Book.step_refused {objection : Objection} (h : call.request = some (.error objection)) :
    book.step call = .ok (call.refused objection.code, book) := by
  simp only [step, h]

theorem Book.step_told {address : Handle} {op : Op D} (h : call.request = some (.ok (address, op)))
    {sheet sheet' : Sheet D} {told : Sheet.Answer D} (hsheet : book address = some sheet)
    (hstep : sheet.step op = .ok (told, sheet')) :
    book.step call = .ok (call.told told, Function.update book address (some sheet')) := by
  simp only [step, h, hsheet, hstep, ok_bind]

/-- **A call that returns** is answered by the book in the same way. -/
theorem step_returned (h : process.Represents book) (hstep : step process call = .ok (answer, next)) :
    ∃ book', book.step call = .ok (answer.untold, book') ∧ next.Represents book' := by
  rcases step_cases hstep with ⟨objection, hrequest, rfl, rfl⟩ |
    ⟨address, op, kernel, reply, kernel', hrequest, hengine, hkernel, rfl, rfl⟩ |
    ⟨address, rfl, hnone, rfl, rfl⟩ | ⟨engine, rfl, rfl, hdestroyed⟩ | ⟨rfl, rfl, rfl⟩
  · refine ⟨book, ?_, h⟩
    rw [untold_refused, Book.step_refused hrequest]
  · obtain ⟨sheet, hsheet, hrepresents⟩ := h.exists_sheet hengine
    obtain ⟨sheet', hstep', hrepresents'⟩ := StatKernel.simulation.returned hrepresents hkernel
    refine ⟨Function.update book address (some sheet'), ?_, h.performed hrepresents' reply⟩
    rw [call_answered, untold_told, Book.step_told hrequest hsheet hstep']
  · have hbook := (h.none_iff address).mp hnone
    refine ⟨Function.update book address (some Sheet.empty), ?_,
      h.update address (.some .fresh) process.errorMessage⟩
    simp only [Book.step, Call.request, hbook, Answer.untold]
  · rcases hdestroyed with ⟨rfl, rfl⟩ | ⟨address, kernel, rfl, hengine, rfl⟩
    · exact ⟨book, rfl, h⟩
    · obtain ⟨sheet, hsheet, -⟩ := h.exists_sheet hengine
      refine ⟨Function.update book address none, ?_, h.update address .none process.errorMessage⟩
      simp only [Book.step, Call.request, hsheet, Answer.untold]
  · exact ⟨book, rfl, h⟩

/-- **A call that aborts** aborts in the book, or runs an evaluation pass. -/
theorem step_failed (h : process.Represents book) (hpass : ¬ call.IsPass) {reason : Abort}
    (hstep : step process call = .error reason) : book.step call = .error reason := by
  cases hrequest : call.request with
  | some request =>
      cases request with
      | error objection =>
          rw [step_refused hrequest] at hstep
          cases hstep
      | ok target =>
          obtain ⟨address, op⟩ := target
          rw [step_performed hrequest, Process.perform] at hstep
          cases hengine : process.engines address with
          | none =>
              rw [hengine] at hstep
              cases hstep
              simp only [Book.step, hrequest, (h.none_iff address).mp hengine]
          | some kernel =>
              obtain ⟨sheet, hsheet, hrepresents⟩ := h.exists_sheet hengine
              have hop : op ≠ .evaluate := by
                rintro rfl
                exact hpass ⟨address, hrequest⟩
              rw [hengine] at hstep
              dsimp only at hstep
              cases hkernel : kernel.step op with
              | ok outcome => rw [hkernel] at hstep; cases hstep
              | error reason' =>
                  rw [hkernel] at hstep
                  cases hstep
                  have hfailed := StatKernel.simulation.failed hrepresents hop hkernel
                  simp only [Book.step, hrequest, hsheet, hfailed, error_bind]
  | none =>
      cases call with
      | createEngine address =>
          rw [step, Process.sfCreateEngine] at hstep
          cases hengine : process.engines address with
          | none => rw [hengine] at hstep; cases hstep
          | some kernel =>
              obtain ⟨sheet, hsheet, -⟩ := h.exists_sheet hengine
              rw [hengine] at hstep
              cases hstep
              simp only [Book.step, Call.request, hsheet]
      | destroyEngine engine =>
          cases engine with
          | none => cases hstep
          | some address =>
              rw [step, Process.sfDestroyEngine] at hstep
              cases hengine : process.engines address with
              | none =>
                  rw [hengine] at hstep
                  cases hstep
                  simp only [Book.step, Call.request, (h.none_iff address).mp hengine]
              | some kernel => rw [hengine] at hstep; cases hstep
      | lastError => cases hstep
      | _ => cases hrequest

/-- **The process simulates the book**, but for evaluation passes that abort. -/
theorem simulation : Simulation (step (D := D)) Book.step Process.Represents Answer.untold
    Call.IsPass where
  returned h hstep := step_returned h hstep
  failed h hpass hstep := step_failed h hpass hstep

end Represents

theorem represents_start : (start : Process D).Represents Book.empty := fun _ => .none

/-- **Every run of the C interface is a run of the book.**  If all calls return, the sheets give the same
codes and values, and the engines that live at the end have the definitions of their sheets.  If a call
aborts, the book aborts for the same reason, or the call was an evaluation pass. -/
theorem process_refines_book (calls : List (Call D)) :
    (∃ answers process book, run step start calls = .ok (answers, process) ∧
      run Book.step Book.empty calls = .ok (answers.map Answer.untold, book) ∧
      ∀ address, (process.engines address).map (fun kernel => kernel.graph.definition) =
        (book address).map Sheet.definition) ∨
    ∃ reason, run step (start : Process D) calls = .error reason ∧
      (run Book.step Book.empty calls = .error reason ∨
        ∃ before call after answers process, calls = before ++ call :: after ∧ call.IsPass ∧
          run step start before = .ok (answers, process) ∧ step process call = .error reason) := by
  cases hrun : run step (start : Process D) calls with
  | ok outcome =>
      obtain ⟨answers, process⟩ := outcome
      obtain ⟨book, hbook, hrepresents⟩ := simulation.run_returned represents_start hrun
      refine Or.inl ⟨answers, process, book, rfl, hbook, fun address => ?_⟩
      have hrel := hrepresents address
      cases hengine : process.engines address with
      | none => rw [(hrepresents.none_iff address).mp hengine]; rfl
      | some kernel =>
          obtain ⟨sheet, hsheet, hkernel⟩ := hrepresents.exists_sheet hengine
          rw [hsheet, Option.map_some, Option.map_some, hkernel.definition]
  | error reason =>
      refine Or.inr ⟨reason, rfl, ?_⟩
      exact simulation.run_failed represents_start hrun

end StatForge.Api
