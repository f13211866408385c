/-!
Pipelines: named stages, each fed with the result of the one before it. The first stage that fails
ends the run.
-/

namespace AttrGrammar

/-- One step with a name. -/
structure Stage (ε α β : Type) where
  name : String
  run : α → Except ε β

structure Pipeline (ε α β : Type) where
  /-- The names of the stages in the order in which they run. -/
  stages : List String
  run : α → Except ε β

namespace Pipeline

variable {ε α β γ : Type}

/-- No stage at all. -/
def start : Pipeline ε α α := { stages := [], run := .ok }

/-- A function as a step that is not listed. -/
def ofFun (run : α → Except ε β) : Pipeline ε α β := { stages := [], run }

/-- One more stage. -/
def andThen (p : Pipeline ε α β) (stage : Stage ε β γ) : Pipeline ε α γ :=
  { stages := p.stages ++ [stage.name]
    run := fun a => p.run a >>= stage.run }

/-- All stages of another pipeline. -/
def append (p : Pipeline ε α β) (q : Pipeline ε β γ) : Pipeline ε α γ :=
  { stages := p.stages ++ q.stages
    run := fun a => p.run a >>= q.run }

/-- A pipeline as one stage of another. -/
def toStage (p : Pipeline ε α β) : Stage ε α β := { name := "pipeline", run := p.run }

end Pipeline

end AttrGrammar
