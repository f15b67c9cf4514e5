import Sluice.Assembly.Build
import Sluice.Graph.Run
import Sluice.Stage.Catalogue

set_option autoImplicit false

namespace Sluice

variable {σ ε α : Type}

def Graph.line (route : String) : Blueprint Stock where
  pipeline := ⟨"line", "", [], false, route, []⟩
  registry := Stock.registry
  params := []
  environment := .empty

theorem except_of_any {result : Except ε α} {check : α → Bool}
    (passes : result.toOption.any check = true) : ∃ a, result = .ok a ∧ check a = true := by
  cases result with
  | ok a => exact ⟨a, rfl, passes⟩
  | error e => cases passes

def Blueprint.passes [Stage σ] (b : Blueprint σ) (check : Graph σ → Bool) : Bool :=
  b.build.1.toOption.any check

theorem Blueprint.of_passes [Stage σ] {b : Blueprint σ} {check : Graph σ → Bool}
    (passes : b.passes check = true) : ∃ g, b.build.1 = .ok g ∧ check g = true :=
  except_of_any passes

namespace Run

def passes (run : Run σ α) (g : Graph σ) (check : Except EngineError α → Graph σ → Bool) : Bool :=
  (run.start g).any fun ended => check ended.1 ended.2

theorem of_passes {run : Run σ α} {g : Graph σ} {check : Except EngineError α → Graph σ → Bool}
    (passes : run.passes g check = true) :
    ∃ result after, run.start g = some (result, after) ∧ check result after = true := by
  obtain ⟨⟨result, after⟩, started, checks⟩ := (Option.any_eq_true _ _).mp passes
  exact ⟨result, after, started, checks⟩

def succeeds (run : Run σ α) (g : Graph σ) (check : α → Graph σ → Bool) : Bool :=
  run.passes g fun result after => result.toOption.any fun a => check a after

theorem of_succeeds {run : Run σ α} {g : Graph σ} {check : α → Graph σ → Bool}
    (succeeds : run.succeeds g check = true) :
    ∃ a after, run.start g = some (.ok a, after) ∧ check a after = true := by
  obtain ⟨result, after, started, checks⟩ := of_passes succeeds
  obtain ⟨a, rfl, checks⟩ := except_of_any checks
  exact ⟨a, after, started, checks⟩

def fails (run : Run σ α) (g : Graph σ) (check : Graph σ → Bool) : Bool :=
  run.passes g fun result after => !result.isOk && check after

theorem of_fails {run : Run σ α} {g : Graph σ} {check : Graph σ → Bool}
    (fails : run.fails g check = true) :
    ∃ e after, run.start g = some (.error e, after) ∧ check after = true := by
  obtain ⟨result, after, started, checks⟩ := of_passes fails
  obtain ⟨failed, checks⟩ := (Bool.and_eq_true _ _).mp checks
  cases result with
  | ok a => cases failed
  | error e => exact ⟨e, after, started, checks⟩

end Run

end Sluice
