import StatForge.Lib.ExceptBind
import StatForge.Runtime.Engine
import Mathlib.Logic.Function.Basic

/-!
# The C interface

`api/c.cpp` and `error/error.c`: the calls of the C interface on a process, which holds the live
engines by their addresses and the one error text that all of them share.

* `Call`, `step` — the calls, and the machine whose inputs they are.
* `Call.request` — the kernel operation that a call makes on one engine, if its arguments pass their
  checks.
* `step_refused`, `step_performed` — what the calls on an engine do, one lemma for each outcome.
-/

namespace StatForge.Api

open Dsl ExceptBind StatForge.Runtime StatForge.StatKernel

/-- The address that an `SF_Engine*` holds; a null pointer is `none`. -/
abbrev Handle := Nat

/-- A `const char*` that is not null: the characters up to the terminator. -/
abbrev CString := {text : StdString // nul ∉ text}

/-- `SF_ErrorCode`: the codes of the kernel, and those that the interface returns itself. -/
inductive Code
  | ok
  | rejected (code : ErrorCode)
  | internalInvalidEngineState
  | invalidEngineHandle
  deriving DecidableEq, Repr

/-- The code that the engine returns. -/
def Code.ofEngine : Option ErrorCode → Code
  | none => .ok
  | some code => .rejected code

/-- `SF_Value`. -/
structure Value (D : Type) where
  error : Code
  value : D

/-- A check that fails: the code that is returned, and the text that is set before. -/
structure Objection where
  code : Code
  message : String

def validateEngine : Option Handle → Except Objection Handle
  | some engine => .ok engine
  | none => .error ⟨.invalidEngineHandle, "engine is null"⟩

def validateStringArg (value : Option CString) (name : String) : Except Objection StdString :=
  match value with
  | some value => .ok value
  | none => .error ⟨.internalInvalidEngineState, name ++ " is null"⟩

section Process

variable {D : Type} [Double D]

/-- The live engines, and the text of `error.c`. -/
structure Process (D : Type) [Double D] where
  engines : Handle → Option (StatKernel D) := fun _ => none
  errorMessage : StdString := []

namespace Process

variable {α : Type} (process : Process D)

/-- `sf_set_error`, with a buffer of 1024 characters. -/
def sfSetError (message : String) : Process D :=
  { process with errorMessage := (message.toList.takeWhile (· ≠ nul)).take 1023 }

/-- The text, which is consumed. -/
def sfLastError : StdString × Process D :=
  (process.errorMessage, { process with errorMessage := [] })

/-- `engine->engine`, with the text of the process.  An address of no live engine dangles. -/
def engineAt (engine : Handle) : Except Abort (EngineImpl D) :=
  match process.engines engine with
  | some kernel => .ok ⟨kernel, process.errorMessage⟩
  | none => .error .undefined

/-- The process after a call has changed the engine at an address. -/
def store (address : Handle) (engine : EngineImpl D) : Process D :=
  ⟨Function.update process.engines address (some engine.kernel), engine.errorMessage⟩

/-- A function of the interface: the first check that fails sets its text and returns its code;
otherwise the engine is called. -/
def call (refused : Code → α)
    (arguments : Except Objection (Handle × (EngineImpl D → Except Abort (α × EngineImpl D)))) :
    Except Abort (α × Process D) :=
  match arguments with
  | .error objection => .ok (refused objection.code, process.sfSetError objection.message)
  | .ok (address, forward) => do
      let engine ← process.engineAt address
      let (result, engine) ← forward engine
      .ok (result, process.store address engine)

/-- The code of a forwarded call. -/
def returnCode (result : Except Abort (Option ErrorCode × EngineImpl D)) :
    Except Abort (Code × EngineImpl D) := do
  let (code, engine) ← result
  .ok (.ofEngine code, engine)

/-- `new SF_Engine{}` at the address that the allocator returns.  An allocator returns no address of a
live engine. -/
def sfCreateEngine (address : Handle) : Except Abort (Process D) :=
  match process.engines address with
  | none => .ok (process.store address (EngineImpl.new .iterative process.errorMessage))
  | some _ => .error .undefined

/-- `delete`, which ignores null and is undefined on an engine that is not live. -/
def sfDestroyEngine : Option Handle → Except Abort (Process D)
  | none => .ok process
  | some address =>
      match process.engines address with
      | some _ => .ok { process with engines := Function.update process.engines address none }
      | none => .error .undefined

def sfCreateCollectionNode (engine : Option Handle) (name : Option CString)
    (operation : CollectionOperation) : Except Abort (Code × Process D) :=
  process.call id do
    let engine ← validateEngine engine
    let name ← validateStringArg name "name"
    .ok (engine, fun engine => returnCode (engine.createCollectionNode name operation))

def sfCreateFormulaNode (engine : Option Handle) (name formula : Option CString) :
    Except Abort (Code × Process D) :=
  process.call id do
    let engine ← validateEngine engine
    let name ← validateStringArg name "name"
    let formula ← validateStringArg formula "formula"
    .ok (engine, fun engine => returnCode (engine.createFormulaNode name formula))

def sfCreateValueNode (engine : Option Handle) (name : Option CString) (value : D) :
    Except Abort (Code × Process D) :=
  process.call id do
    let engine ← validateEngine engine
    let name ← validateStringArg name "name"
    .ok (engine, fun engine => returnCode (engine.createValueNode name value))

def sfRemoveNode (engine : Option Handle) (name : Option CString) :
    Except Abort (Code × Process D) :=
  process.call id do
    let engine ← validateEngine engine
    let name ← validateStringArg name "name"
    .ok (engine, fun engine => returnCode (engine.removeNode name))

def sfSetNodeValue (engine : Option Handle) (name : Option CString) (value : D) :
    Except Abort (Code × Process D) :=
  process.call id do
    let engine ← validateEngine engine
    let name ← validateStringArg name "name"
    .ok (engine, fun engine => returnCode (engine.setNodeValue name value))

def sfSetNodeFormula (engine : Option Handle) (name formula : Option CString) :
    Except Abort (Code × Process D) :=
  process.call id do
    let engine ← validateEngine engine
    let name ← validateStringArg name "name"
    let formula ← validateStringArg formula "formula"
    .ok (engine, fun engine => returnCode (engine.setNodeFormula name formula))

def sfSetNodeDependency (engine : Option Handle) (name dependencies : Option CString) :
    Except Abort (Code × Process D) :=
  process.call id do
    let engine ← validateEngine engine
    let name ← validateStringArg name "name"
    let dependencies ← validateStringArg dependencies "dependencies"
    .ok (engine, fun engine => returnCode (engine.setNodeDependency name dependencies))

/-- The third check of `sf_get_node_value`. -/
def validateOutValue : Option D → Except Objection D
  | some value => .ok value
  | none => .error ⟨.internalInvalidEngineState, "out_value is null"⟩

/-- `out_value` is the value at that pointer, and the second result the value there afterwards. -/
def sfGetNodeValue (engine : Option Handle) (name : Option CString) (outValue : Option D) :
    Except Abort ((Code × Option D) × Process D) :=
  process.call (fun code => (code, outValue)) do
    let engine ← validateEngine engine
    let name ← validateStringArg name "name"
    let value ← validateOutValue outValue
    .ok (engine, fun engine => do
      let (code, value, engine) ← engine.getNodeValue name value
      .ok ((.ofEngine code, some value), engine))

def sfGetNodeValue2 (engine : Option Handle) (name : Option CString) :
    Except Abort (Value D × Process D) := do
  let result : Value D := ⟨.internalInvalidEngineState, Double.zero⟩
  let ((code, value), process) ← process.sfGetNodeValue engine name (some result.value)
  let result : Value D := ⟨code, value.getD result.value⟩
  .ok (if code ≠ .ok then { result with value := Double.zero } else result, process)

def sfResetEngine (engine : Option Handle) : Except Abort (Unit × Process D) :=
  process.call (fun _ => ()) do
    let engine ← validateEngine engine
    .ok (engine, fun engine => .ok ((), engine.reset))

def sfEvaluateEngine (engine : Option Handle) : Except Abort (Unit × Process D) :=
  process.call (fun _ => ()) do
    let engine ← validateEngine engine
    .ok (engine, fun engine => do
      let engine ← engine.evaluate
      .ok ((), engine))

end Process

/-! ### Runs -/

/-- A call of the interface.  The address of a new engine is the allocator's choice. -/
inductive Call (D : Type)
  | createEngine (address : Handle)
  | destroyEngine (engine : Option Handle)
  | createCollectionNode (engine : Option Handle) (name : Option CString)
      (operation : CollectionOperation)
  | createFormulaNode (engine : Option Handle) (name formula : Option CString)
  | createValueNode (engine : Option Handle) (name : Option CString) (value : D)
  | removeNode (engine : Option Handle) (name : Option CString)
  | setNodeValue (engine : Option Handle) (name : Option CString) (value : D)
  | setNodeFormula (engine : Option Handle) (name formula : Option CString)
  | setNodeDependency (engine : Option Handle) (name dependencies : Option CString)
  | getNodeValue (engine : Option Handle) (name : Option CString) (outValue : Option D)
  | getNodeValue2 (engine : Option Handle) (name : Option CString)
  | resetEngine (engine : Option Handle)
  | evaluateEngine (engine : Option Handle)
  | lastError

/-- What a call returns. -/
inductive Answer (D : Type)
  | engine (address : Handle)
  | void
  | code (code : Code)
  | read (code : Code) (outValue : Option D)
  | value (error : Code) (value : D)
  | message (text : StdString)

def step (process : Process D) : Call D → Except Abort (Answer D × Process D)
  | .createEngine address => do
      let process ← process.sfCreateEngine address
      .ok (.engine address, process)
  | .destroyEngine engine => do
      let process ← process.sfDestroyEngine engine
      .ok (.void, process)
  | .createCollectionNode engine name operation => do
      let (code, process) ← process.sfCreateCollectionNode engine name operation
      .ok (.code code, process)
  | .createFormulaNode engine name formula => do
      let (code, process) ← process.sfCreateFormulaNode engine name formula
      .ok (.code code, process)
  | .createValueNode engine name value => do
      let (code, process) ← process.sfCreateValueNode engine name value
      .ok (.code code, process)
  | .removeNode engine name => do
      let (code, process) ← process.sfRemoveNode engine name
      .ok (.code code, process)
  | .setNodeValue engine name value => do
      let (code, process) ← process.sfSetNodeValue engine name value
      .ok (.code code, process)
  | .setNodeFormula engine name formula => do
      let (code, process) ← process.sfSetNodeFormula engine name formula
      .ok (.code code, process)
  | .setNodeDependency engine name dependencies => do
      let (code, process) ← process.sfSetNodeDependency engine name dependencies
      .ok (.code code, process)
  | .getNodeValue engine name outValue => do
      let ((code, outValue), process) ← process.sfGetNodeValue engine name outValue
      .ok (.read code outValue, process)
  | .getNodeValue2 engine name => do
      let (result, process) ← process.sfGetNodeValue2 engine name
      .ok (.value result.error result.value, process)
  | .resetEngine engine => do
      let ((), process) ← process.sfResetEngine engine
      .ok (.void, process)
  | .evaluateEngine engine => do
      let ((), process) ← process.sfEvaluateEngine engine
      .ok (.void, process)
  | .lastError =>
      let (text, process) := process.sfLastError
      .ok (.message text, process)

/-- A process before its first call. -/
def start : Process D := {}

/-! ### What a call does -/

/-- The name that a call on a node passes on, behind the checks of the engine and the name. -/
def nodeArguments (engine : Option Handle) (name : Option CString) :
    Except Objection (Handle × StdString) := do
  let engine ← validateEngine engine
  let name ← validateStringArg name "name"
  .ok (engine, name)

/-- The operation of the kernel that a call makes, or the check that fails first.  The calls that
create, destroy or report are on no engine. -/
def Call.request : Call D → Option (Except Objection (Handle × Op D))
  | .createEngine _ => none
  | .destroyEngine _ => none
  | .createCollectionNode engine name operation => some do
      let (engine, name) ← nodeArguments engine name
      .ok (engine, .createCollectionNode name [] operation)
  | .createFormulaNode engine name formula => some do
      let (engine, name) ← nodeArguments engine name
      let formula ← validateStringArg formula "formula"
      .ok (engine, .createFormulaNode name formula)
  | .createValueNode engine name value => some do
      let (engine, name) ← nodeArguments engine name
      .ok (engine, .createValueNode name value)
  | .removeNode engine name => some do
      let (engine, name) ← nodeArguments engine name
      .ok (engine, .removeNode name)
  | .setNodeValue engine name value => some do
      let (engine, name) ← nodeArguments engine name
      .ok (engine, .setNodeValue name value)
  | .setNodeFormula engine name formula => some do
      let (engine, name) ← nodeArguments engine name
      let formula ← validateStringArg formula "formula"
      .ok (engine, .setNodeFormula name formula)
  | .setNodeDependency engine name dependencies => some do
      let (engine, name) ← nodeArguments engine name
      let dependencies ← validateStringArg dependencies "dependencies"
      .ok (engine, .setNodeDependencies name (parseDependencies dependencies))
  | .getNodeValue engine name outValue => some do
      let (engine, name) ← nodeArguments engine name
      let _ ← Process.validateOutValue outValue
      .ok (engine, .getNodeValue name)
  | .getNodeValue2 engine name => some do
      let (engine, name) ← nodeArguments engine name
      .ok (engine, .getNodeValue name)
  | .resetEngine engine => some do
      let engine ← validateEngine engine
      .ok (engine, .reset)
  | .evaluateEngine engine => some do
      let engine ← validateEngine engine
      .ok (engine, .evaluate)
  | .lastError => none

/-- The answer of a call whose check fails. -/
def Call.refused : Call D → Code → Answer D
  | .getNodeValue _ _ outValue, code => .read code outValue
  | .getNodeValue2 _ _, code => .value code Double.zero
  | .resetEngine _, _ => .void
  | .evaluateEngine _, _ => .void
  | _, code => .code code

/-- The error that the kernel replies. -/
def errorOf : Reply D → Option ErrorInfo
  | .result (.error info) => some info
  | .value (.error info) => some info
  | _ => none

/-- The code for a reply of the kernel. -/
def codeOf (reply : Reply D) : Code := Code.ofEngine ((errorOf reply).map ErrorInfo.errorCode)

/-- The answer of a call to which the kernel replies. -/
def Call.answered : Call D → Reply D → Answer D
  | .getNodeValue _ _ _, .value (.ok value) => .read .ok (some value)
  | .getNodeValue _ _ outValue, reply => .read (codeOf reply) outValue
  | .getNodeValue2 _ _, .value (.ok value) => .value .ok value
  | .getNodeValue2 _ _, reply => .value (codeOf reply) Double.zero
  | .resetEngine _, _ => .void
  | .evaluateEngine _, _ => .void
  | _, reply => .code (codeOf reply)

/-- The process after the kernel at an address has replied. -/
def Process.performed (process : Process D) (address : Handle) (reply : Reply D)
    (kernel : StatKernel D) : Process D :=
  let process : Process D := { process with
    engines := Function.update process.engines address (some kernel) }
  match errorOf reply with
  | none => process
  | some info => process.sfSetError info.message

/-- A call on an engine that is live is the operation of its kernel. -/
def Process.perform (process : Process D) (call : Call D) (address : Handle) (op : Op D) :
    Except Abort (Answer D × Process D) :=
  match process.engines address with
  | none => .error .undefined
  | some kernel =>
      match kernel.step op with
      | .error reason => .error reason
      | .ok (reply, kernel) => .ok (call.answered reply, process.performed address reply kernel)

variable {process : Process D} {call : Call D}

/-- **A check that fails** leaves every engine alone, sets its text and returns its code. -/
theorem step_refused {objection : Objection} (h : call.request = some (.error objection)) :
    step process call =
      .ok (call.refused objection.code, process.sfSetError objection.message) := by
  cases call with
  | createEngine address => cases h
  | destroyEngine engine => cases h
  | lastError => cases h
  | resetEngine engine =>
      cases engine <;> cases h
      rfl
  | evaluateEngine engine =>
      cases engine <;> cases h
      rfl
  | createFormulaNode engine name formula =>
      cases engine <;> cases name <;> cases formula <;> cases h <;> rfl
  | setNodeFormula engine name formula =>
      cases engine <;> cases name <;> cases formula <;> cases h <;> rfl
  | setNodeDependency engine name dependencies =>
      cases engine <;> cases name <;> cases dependencies <;> cases h <;> rfl
  | getNodeValue engine name outValue =>
      cases engine <;> cases name <;> cases outValue <;> cases h <;> rfl
  | getNodeValue2 engine name =>
      cases engine <;> cases name <;> cases h <;> rfl
  | createCollectionNode engine name operation =>
      cases engine <;> cases name <;> cases h <;> rfl
  | createValueNode engine name value => cases engine <;> cases name <;> cases h <;> rfl
  | removeNode engine name => cases engine <;> cases name <;> cases h <;> rfl
  | setNodeValue engine name value => cases engine <;> cases name <;> cases h <;> rfl

/-- A forwarded operation that returns a `VoidResult`. -/
theorem call_forwarded (process : Process D) (address : Handle)
    (operation : StatKernel D → Except Abort (VoidResult × StatKernel D)) :
    process.call id (.ok (address, fun engine =>
        Process.returnCode (engine.forward (operation engine.kernel)))) =
      match process.engines address with
      | none => .error .undefined
      | some kernel =>
          match operation kernel with
          | .error reason => .error reason
          | .ok (result, kernel) =>
              .ok (codeOf (.result result : Reply D),
                process.performed address (.result result) kernel) := by
  cases hengine : process.engines address with
  | none => simp only [Process.call, Process.engineAt, hengine, error_bind]
  | some kernel =>
      simp only [Process.call, Process.engineAt, hengine, EngineImpl.forward, Process.returnCode,
        ok_bind]
      cases operation kernel with
      | error reason => rfl
      | ok outcome =>
          obtain ⟨result, kernel'⟩ := outcome
          cases result <;> rfl

/-- The calls that return the code of a forwarded operation. -/
theorem step_forwarded {address : Handle} {op : Op D}
    (operation : StatKernel D → Except Abort (VoidResult × StatKernel D))
    (hstep : step process call = (do
      let (code, process) ← process.call id (.ok (address, fun engine =>
        Process.returnCode (engine.forward (operation engine.kernel))))
      .ok (.code code, process)))
    (hop : ∀ kernel : StatKernel D, kernel.step op = voidReply <$> operation kernel)
    (hanswer : ∀ reply, call.answered reply = .code (codeOf reply)) :
    step process call = process.perform call address op := by
  rw [hstep, call_forwarded, Process.perform]
  cases hengine : process.engines address with
  | none => rfl
  | some kernel =>
      dsimp only
      rw [hop]
      cases hrun : operation kernel with
      | error reason => rfl
      | ok outcome =>
          obtain ⟨result, kernel'⟩ := outcome
          exact congrArg Except.ok (congrArg (Prod.mk · _) (hanswer _).symm)

theorem step_reset (address : Handle) :
    step process (.resetEngine (some address)) =
      process.perform (.resetEngine (some address)) address .reset := by
  rw [step, Process.sfResetEngine, Process.perform]
  simp only [validateEngine, ok_bind, Process.call, Process.engineAt]
  cases process.engines address <;> rfl

theorem step_evaluate (address : Handle) :
    step process (.evaluateEngine (some address)) =
      process.perform (.evaluateEngine (some address)) address .evaluate := by
  rw [step, Process.sfEvaluateEngine, Process.perform]
  simp only [validateEngine, ok_bind, Process.call, Process.engineAt]
  cases process.engines address with
  | none => rfl
  | some kernel =>
      simp only [EngineImpl.evaluate, StatKernel.step, ok_bind]
      cases kernel.evaluate with
      | error reason => rfl
      | ok outcome =>
          obtain ⟨result, kernel'⟩ := outcome
          cases result <;> rfl

/-- The call of the getter behind its checks. -/
theorem sfGetNodeValue_some (process : Process D) (address : Handle) (name : CString) (value : D) :
    process.sfGetNodeValue (some address) (some name) (some value) =
      match process.engines address with
      | none => .error .undefined
      | some kernel =>
          match kernel.getNodeValue name with
          | .error reason => .error reason
          | .ok (result, kernel) =>
              .ok ((codeOf (.value result), some (result.toOption.getD value)),
                process.performed address (.value result) kernel) := by
  simp only [Process.sfGetNodeValue, validateEngine, validateStringArg, Process.validateOutValue,
    ok_bind, Process.call, Process.engineAt]
  cases process.engines address with
  | none => rfl
  | some kernel =>
      simp only [EngineImpl.getNodeValue, ok_bind]
      cases kernel.getNodeValue name with
      | error reason => rfl
      | ok outcome =>
          obtain ⟨result, kernel'⟩ := outcome
          cases result <;> rfl

theorem step_read (address : Handle) (name : CString) (value : D) :
    step process (.getNodeValue (some address) (some name) (some value)) =
      process.perform (.getNodeValue (some address) (some name) (some value)) address
        (.getNodeValue name) := by
  rw [step, sfGetNodeValue_some, Process.perform]
  cases process.engines address with
  | none => rfl
  | some kernel =>
      simp only [StatKernel.step]
      cases kernel.getNodeValue name with
      | error reason => rfl
      | ok outcome =>
          obtain ⟨result, kernel'⟩ := outcome
          cases result <;> rfl

theorem step_read_value (address : Handle) (name : CString) :
    step process (.getNodeValue2 (some address) (some name)) =
      process.perform (.getNodeValue2 (some address) (some name)) address (.getNodeValue name) := by
  rw [step, Process.sfGetNodeValue2, sfGetNodeValue_some, Process.perform]
  cases process.engines address with
  | none => rfl
  | some kernel =>
      simp only [StatKernel.step]
      cases kernel.getNodeValue name with
      | error reason => rfl
      | ok outcome =>
          obtain ⟨result, kernel'⟩ := outcome
          cases result <;> rfl

/-- **A call on a live engine** makes one operation of its kernel. -/
theorem step_performed {address : Handle} {op : Op D}
    (h : call.request = some (.ok (address, op))) :
    step process call = process.perform call address op := by
  cases call with
  | createEngine address => cases h
  | destroyEngine engine => cases h
  | lastError => cases h
  | createFormulaNode engine name formula =>
      cases engine <;> cases name <;> cases formula <;> cases h
      exact step_forwarded (fun kernel => kernel.createFormulaNode _ _) rfl (fun _ => rfl) fun _ => rfl
  | setNodeFormula engine name formula =>
      cases engine <;> cases name <;> cases formula <;> cases h
      exact step_forwarded (fun kernel => kernel.setNodeFormula _ _) rfl (fun _ => rfl) fun _ => rfl
  | setNodeDependency engine name dependencies =>
      cases engine <;> cases name <;> cases dependencies <;> cases h
      exact step_forwarded (fun kernel => kernel.setNodeDependencies _ _) rfl (fun _ => rfl)
        fun _ => rfl
  | createCollectionNode engine name operation =>
      cases engine <;> cases name <;> cases h
      exact step_forwarded (fun kernel => kernel.createCollectionNode _ [] operation) rfl
        (fun _ => rfl) fun _ => rfl
  | createValueNode engine name value =>
      cases engine <;> cases name <;> cases h
      exact step_forwarded (fun kernel => .ok (kernel.createValueNode _ value)) rfl (fun _ => rfl)
        fun _ => rfl
  | removeNode engine name =>
      cases engine <;> cases name <;> cases h
      exact step_forwarded (fun kernel => kernel.removeNode _) rfl (fun _ => rfl) fun _ => rfl
  | setNodeValue engine name value =>
      cases engine <;> cases name <;> cases h
      exact step_forwarded (fun kernel => kernel.setNodeValue _ value) rfl (fun _ => rfl) fun _ => rfl
  | resetEngine engine =>
      cases engine <;> cases h
      exact step_reset _
  | evaluateEngine engine =>
      cases engine <;> cases h
      exact step_evaluate _
  | getNodeValue engine name outValue =>
      cases engine <;> cases name <;> cases outValue <;> cases h
      exact step_read _ _ _
  | getNodeValue2 engine name =>
      cases engine <;> cases name <;> cases h
      exact step_read_value _ _

end Process

end StatForge.Api
