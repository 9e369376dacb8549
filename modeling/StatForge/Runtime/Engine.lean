import StatForge.Lib.Runs
import StatForge.StatKernel.StatKernel

/-!
# The engine

The calls of `runtime/engine.cpp`, and its dependency strings.

* `parseDependencies` and `setNodeDependency` — the list of names in a text, and the call that sets
  them.
* `parseDependencies_splits` — the names are the maximal runs without commas and whitespace, and
  joined names are given back exactly if each of them is such a run.
-/

namespace StatForge.Runtime

open Dsl StatForge.StatKernel

/-- `c == ',' || std::isspace(c)`. -/
def isSeparator (c : Char) : Bool := c == ',' || isSpace c

/-- The names so far and the current one, which joins them if it is not empty. -/
def flushCurrent : List NodeId × StdString → List NodeId × StdString
  | (parsed, current) => if !current.isEmpty then (parsed ++ [current], []) else (parsed, current)

/-- The body of the loop over the characters. -/
def parseCharacter (state : List NodeId × StdString) (c : Char) : List NodeId × StdString :=
  if isSeparator c then flushCurrent state else (state.1, state.2 ++ [c])

def parseDependencies (dependencies : StdString) : List NodeId :=
  (flushCurrent (dependencies.foldl parseCharacter ([], []))).1

section Engine

variable {D : Type} [Double D]

/-- The engine, and the text that `sf_set_error` keeps. -/
structure EngineImpl (D : Type) [Double D] where
  kernel : StatKernel D := {}
  errorMessage : StdString := []

/-- `sf_set_error("%s", message.c_str())` into a buffer of 1024 characters. -/
def EngineImpl.setError (engine : EngineImpl D) (message : String) : EngineImpl D :=
  { engine with errorMessage := (message.toList.takeWhile (· ≠ nul)).take 1023 }

/-- The error code, where `none` is `SF_OK`. -/
def EngineImpl.extractErrorCode (engine : EngineImpl D) :
    VoidResult → Option ErrorCode × EngineImpl D
  | .ok () => (none, engine)
  | .error info => (some info.errorCode, engine.setError info.message)

def EngineImpl.setNodeDependency (engine : EngineImpl D) (name : NodeId) (dependencies : StdString) :
    Except Abort (Option ErrorCode × EngineImpl D) := do
  let (result, kernel) ← engine.kernel.setNodeDependencies name (parseDependencies dependencies)
  .ok ({ engine with kernel := kernel }.extractErrorCode result)

/-- The constructor; the evaluation type has a default. -/
def EngineImpl.new (evaluationType : EvaluationType := .iterative) (errorMessage : StdString := []) :
    EngineImpl D :=
  ⟨({} : StatKernel D).setEvaluationType evaluationType, errorMessage⟩

/-- A call of the kernel whose result is the error code. -/
def EngineImpl.forward (engine : EngineImpl D) (call : Except Abort (VoidResult × StatKernel D)) :
    Except Abort (Option ErrorCode × EngineImpl D) := do
  let (result, kernel) ← call
  .ok ({ engine with kernel := kernel }.extractErrorCode result)

/-- A collection starts without dependencies. -/
def EngineImpl.createCollectionNode (engine : EngineImpl D) (name : NodeId)
    (operation : CollectionOperation) : Except Abort (Option ErrorCode × EngineImpl D) :=
  engine.forward (engine.kernel.createCollectionNode name [] operation)

def EngineImpl.createFormulaNode (engine : EngineImpl D) (name : NodeId) (formula : StdString) :
    Except Abort (Option ErrorCode × EngineImpl D) :=
  engine.forward (engine.kernel.createFormulaNode name formula)

def EngineImpl.createValueNode (engine : EngineImpl D) (name : NodeId) (value : D) :
    Except Abort (Option ErrorCode × EngineImpl D) :=
  engine.forward (.ok (engine.kernel.createValueNode name value))

def EngineImpl.removeNode (engine : EngineImpl D) (name : NodeId) :
    Except Abort (Option ErrorCode × EngineImpl D) :=
  engine.forward (engine.kernel.removeNode name)

def EngineImpl.setNodeValue (engine : EngineImpl D) (name : NodeId) (value : D) :
    Except Abort (Option ErrorCode × EngineImpl D) :=
  engine.forward (engine.kernel.setNodeValue name value)

def EngineImpl.setNodeFormula (engine : EngineImpl D) (name : NodeId) (formula : StdString) :
    Except Abort (Option ErrorCode × EngineImpl D) :=
  engine.forward (engine.kernel.setNodeFormula name formula)

/-- The code, the value that the reference `value` has afterwards, and the engine.  An error leaves the
value as it was. -/
def EngineImpl.getNodeValue (engine : EngineImpl D) (name : NodeId) (value : D) :
    Except Abort (Option ErrorCode × D × EngineImpl D) := do
  let (result, kernel) ← engine.kernel.getNodeValue name
  let engine := { engine with kernel := kernel }
  match result with
  | .error info => .ok (some info.errorCode, value, engine.setError info.message)
  | .ok found => .ok (none, found, engine)

/-- `sf_last_error`: the text, which is consumed. -/
def EngineImpl.getLastError (engine : EngineImpl D) : StdString × EngineImpl D :=
  (engine.errorMessage, { engine with errorMessage := [] })

def EngineImpl.evaluate (engine : EngineImpl D) : Except Abort (EngineImpl D) := do
  let (result, kernel) ← engine.kernel.evaluate
  let engine := { engine with kernel := kernel }
  match result with
  | .error info => .ok (engine.setError info.message)
  | .ok () => .ok engine

/-- `Context::reset`; the rules that it also clears are never filled. -/
def EngineImpl.reset (engine : EngineImpl D) : EngineImpl D :=
  { engine with kernel := engine.kernel.reset }

end Engine

/-! ### Splitting -/

/-- The characters of a name. -/
def isNameCharacter (c : Char) : Bool := !isSeparator c

/-- **The loop** completes the current name with the characters up to a separator, and finds the runs
behind them. -/
theorem flushCurrent_foldl (text : StdString) (parsed : List NodeId) (current : StdString) :
    (flushCurrent (text.foldl parseCharacter (parsed, current))).1 =
      parsed ++ if current = [] then Runs.runs isNameCharacter text
        else (current ++ text.takeWhile isNameCharacter) ::
          Runs.runs isNameCharacter (text.dropWhile isNameCharacter) := by
  induction text generalizing parsed current with
  | nil => cases current <;> simp [flushCurrent]
  | cons c text ih =>
      rw [List.foldl_cons]
      cases hc : isSeparator c with
      | true =>
          have hname : isNameCharacter c = false := by simp [isNameCharacter, hc]
          have hstep : parseCharacter (parsed, current) c = flushCurrent (parsed, current) :=
            if_pos hc
          rw [hstep, Runs.runs_cons_of_not hname]
          cases current with
          | nil => exact ih parsed []
          | cons d current =>
              have hflush : flushCurrent (parsed, d :: current) = (parsed ++ [d :: current], []) := rfl
              rw [hflush, ih, if_pos rfl]
              simp [hname, Runs.runs_cons_of_not]
      | false =>
          have hname : isNameCharacter c = true := by simp [isNameCharacter, hc]
          have hstep : parseCharacter (parsed, current) c = (parsed, current ++ [c]) :=
            if_neg (by simp [hc])
          rw [hstep, ih, if_neg (by simp), Runs.runs_cons_of_keep hname]
          cases current <;> simp [hname]

/-- The names are the maximal runs between separators. -/
theorem parseDependencies_eq_runs (text : StdString) :
    parseDependencies text = Runs.runs isNameCharacter text :=
  flushCurrent_foldl text [] []

/-- **Dependency strings are split without loss.**  The names are the maximal non-empty runs of
characters that are neither commas nor whitespace, in order; and names that are joined by separators
of commas and whitespace are given back exactly if none of them is empty or has a separator in it. -/
theorem parseDependencies_splits :
    (∀ text, parseDependencies text = Runs.runs isNameCharacter text) ∧
    ∀ (ids : List NodeId) (text : StdString), Runs.Joined isNameCharacter ids text →
      (parseDependencies text = ids ↔ ∀ id ∈ ids, id ≠ [] ∧ ∀ c ∈ id, isSeparator c = false) := by
  refine ⟨parseDependencies_eq_runs, fun ids text hjoined => ?_⟩
  rw [parseDependencies_eq_runs, Runs.runs_joined_iff hjoined]
  simp [isNameCharacter]

/-- Names that are joined by a tab behind a comma and by two blanks are given back; a name with a blank
in it is not. -/
theorem joined_names_are_split :
    parseDependencies "a,\tb  c".toList = ["a".toList, "b".toList, "c".toList] ∧
      parseDependencies "a b".toList ≠ ["a b".toList] := by
  have hcomma : ∀ c ∈ ",\t".toList, isNameCharacter c = false := by
    simp [isNameCharacter, isSeparator, isSpace]
  have hblanks : ∀ c ∈ "  ".toList, isNameCharacter c = false := by
    simp [isNameCharacter, isSeparator, isSpace]
  have hthree : Runs.Joined isNameCharacter ["a".toList, "b".toList, "c".toList]
      "a,\tb  c".toList :=
    .cons "a".toList ",\t".toList (by decide) hcomma
      (.cons "b".toList "  ".toList (by decide) hblanks (.singleton "c".toList))
  have hone : Runs.Joined isNameCharacter ["a b".toList] "a b".toList := .singleton _
  refine ⟨(parseDependencies_splits.2 _ _ hthree).mpr ?_, fun hsplit => ?_⟩
  · simp [isSeparator, isSpace]
  · have hblank := ((parseDependencies_splits.2 _ _ hone).mp hsplit "a b".toList (by simp)).2 ' '
    exact absurd (hblank (by simp)) (by decide)

end StatForge.Runtime
