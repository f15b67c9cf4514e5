import Sluice.Message
import Sluice.Text.Blank
import Sluice.Value.Print

set_option autoImplicit false

namespace Sluice

inductive LogLevel where
  | trace
  | debug
  | info
  | warn
  | error
  deriving DecidableEq, Repr

def LogLevel.name : LogLevel → String
  | .trace => "TRACE"
  | .debug => "DEBUG"
  | .info => "INFO"
  | .warn => "WARN"
  | .error => "ERROR"

structure Duration where
  nanos : Nat
  deriving DecidableEq, Repr

namespace Duration

def zero : Duration := ⟨0⟩

def millis (d : Duration) : Nat := d.nanos / 1000000

def micros (d : Duration) : Nat := d.nanos / 1000

/-- A quotient of a power of ten written out, without zeros at its end. -/
def quotientText (n power : Nat) : String :=
  let part := Nat.toDigits 10 (n % Nat.pow 10 power)
  let part := List.replicate (power - part.length) '0' ++ part
  let part := (part.reverse.dropWhile (· == '0')).reverse
  toString (n / Nat.pow 10 power) ++ (if part.isEmpty then "" else "." ++ String.ofList part)

/-- Seconds, milliseconds, microseconds or nanoseconds: the largest unit that fits into it. -/
def text (d : Duration) : String :=
  if 1000000000 ≤ d.nanos then quotientText d.nanos 9 ++ "s"
  else if 1000000 ≤ d.nanos then quotientText d.nanos 6 ++ "ms"
  else if 1000 ≤ d.nanos then quotientText d.nanos 3 ++ "µs"
  else toString d.nanos ++ "ns"

end Duration

inductive Report where
  | assemblyStarted (pipeline route : String)
  | assemblyCompleted (pipeline : String) (nodeCount : Nat) (entry : String) (took : Duration)
  | assemblyFailed (pipeline error : String)
  | shutdownStarted (pipeline : String)
  | shutdownCompleted (pipeline : String) (took : Duration)
  | routeCompiled (route : String) (nodeCount edgeCount : Nat)
  | routeRejected (route error : String)
  | parcelForwarded (source target : String) (edge : Edge)
  | fanOutRouted (fanOut : String) (edge : Edge)
  | messageOpened (stage : String) (message : Message)
  | parameterReset (stage parameter : String) (value : Value)
  | parameterRefreshed (stage parameter name : String)
  | closeDeferred (stage : String)
  | reentrancySuppressed (stage : String)
  | stageClosed (stage typeName : String)
  | processingStarted (stage : String) (inputSize : Nat)
  | processingCompleted (stage : String) (inputSize outputSize : Nat) (took : Duration)
  | stageFailed (stage error : String)
  | tankResized (stage : String) (capacity : Int) (held size : Nat)
  | tankForwarded (stage : String) (cycle : Nat)
  | unconnectedStage (stage : String)
  | validationStarted (pipeline : String) (stageCount : Nat)
  | validationCompleted (pipeline : String)
  | validationFailed (pipeline reason : String)

namespace Report

def level : Report → LogLevel
  | .assemblyStarted .. | .assemblyCompleted .. | .shutdownStarted .. | .shutdownCompleted .. =>
    .info
  | .assemblyFailed .. | .stageFailed .. | .validationFailed .. => .error
  | .routeRejected .. | .closeDeferred .. | .reentrancySuppressed .. | .unconnectedStage .. =>
    .warn
  | .parcelForwarded .. | .fanOutRouted .. | .tankForwarded .. => .trace
  | .routeCompiled .. | .messageOpened .. | .parameterReset .. | .parameterRefreshed ..
  | .stageClosed .. | .processingStarted .. | .processingCompleted .. | .tankResized ..
  | .validationStarted .. | .validationCompleted .. => .debug

def text : Report → String
  | .assemblyStarted pipeline _ => s!"Assembling pipeline '{pipeline}'"
  | .assemblyCompleted pipeline nodeCount entry took =>
    s!"Assembled pipeline '{pipeline}': {nodeCount} nodes, entry '{entry}', in {took.text}"
  | .assemblyFailed pipeline error => s!"Failed to assemble pipeline '{pipeline}': {error}"
  | .shutdownStarted pipeline => s!"Shutting down pipeline '{pipeline}'"
  | .shutdownCompleted pipeline took => s!"Pipeline '{pipeline}' shut down in {took.text}"
  | .routeCompiled _ nodeCount edgeCount =>
    s!"Compiled route: {nodeCount} nodes, {edgeCount} edges"
  | .routeRejected _ error => s!"Rejected route: {error}"
  | .parcelForwarded source target edge => s!"{source} -> {target} ({edge.name})"
  | .fanOutRouted fanOut edge => s!"{fanOut} routing unit to {edge.name}"
  | .messageOpened stage message => s!"Stage '{stage}' opened message {message.text}"
  | .parameterReset stage parameter value =>
    s!"Stage '{stage}' reset '{parameter}' to {value.print}"
  | .parameterRefreshed stage parameter name =>
    s!"Stage '{stage}' refreshed '{parameter}' from %{name}"
  | .closeDeferred stage => s!"Stage '{stage}' is busy; close deferred"
  | .reentrancySuppressed stage => s!"Re-entrant delivery to '{stage}' suppressed during shutdown"
  | .stageClosed stage typeName => s!"Closed stage '{stage}' ({typeName})"
  | .processingStarted stage inputSize => s!"Stage '{stage}' processing {inputSize} bytes"
  | .processingCompleted stage inputSize outputSize took =>
    s!"Stage '{stage}' processed {inputSize} -> {outputSize} bytes in {took.text}"
  | .stageFailed stage error => s!"Stage '{stage}' failed: {error}"
  | .tankResized stage capacity held size =>
    s!"Tank '{stage}' resized to {capacity}: {held} held, {size} slots"
  | .tankForwarded stage cycle => s!"Tank '{stage}' released unit #{cycle}"
  | .unconnectedStage stage => s!"Stage '{stage}' is declared but not connected by the route"
  | .validationStarted pipeline stageCount =>
    s!"Validating pipeline '{pipeline}' with {stageCount} stage sections"
  | .validationCompleted pipeline => s!"Pipeline '{pipeline}' passed validation"
  | .validationFailed pipeline reason => s!"Pipeline '{pipeline}' failed validation: {reason}"

def fields : Report → List (String × String)
  | .assemblyStarted pipeline route => [("pipeline", pipeline), ("route", Text.trim route)]
  | .assemblyCompleted pipeline nodeCount entry took =>
    [("pipeline", pipeline), ("node_count", toString nodeCount), ("entry", entry),
      ("duration_ms", toString took.millis)]
  | .assemblyFailed pipeline error => [("pipeline", pipeline), ("error", error)]
  | .shutdownStarted pipeline => [("pipeline", pipeline)]
  | .shutdownCompleted pipeline took =>
    [("pipeline", pipeline), ("duration_ms", toString took.millis)]
  | .routeCompiled route nodeCount edgeCount =>
    [("route", Text.trim route), ("node_count", toString nodeCount),
      ("edge_count", toString edgeCount)]
  | .routeRejected route error => [("route", Text.trim route), ("error", error)]
  | .parcelForwarded source target edge =>
    [("from", source), ("to", target), ("edge", edge.name)]
  | .fanOutRouted fanOut edge => [("fan_out", fanOut), ("edge", edge.name)]
  | .messageOpened stage message =>
    [("stage", stage), ("verb", message.verb), ("single_use", toString message.singleUse)]
  | .parameterReset stage parameter value =>
    [("stage", stage), ("parameter", parameter), ("value", value.print)]
  | .parameterRefreshed stage parameter name =>
    [("stage", stage), ("parameter", parameter), ("variable", name)]
  | .closeDeferred stage => [("stage", stage)]
  | .reentrancySuppressed stage => [("stage", stage)]
  | .stageClosed stage typeName => [("stage", stage), ("type_name", typeName)]
  | .processingStarted stage inputSize =>
    [("stage", stage), ("input_size", toString inputSize)]
  | .processingCompleted stage inputSize outputSize took =>
    [("stage", stage), ("input_size", toString inputSize),
      ("output_size", toString outputSize), ("duration_us", toString took.micros)]
  | .stageFailed stage error => [("stage", stage), ("error", error)]
  | .tankResized stage capacity held size =>
    [("stage", stage), ("capacity", toString capacity), ("held", toString held),
      ("len", toString size)]
  | .tankForwarded stage cycle => [("stage", stage), ("cycle", toString cycle)]
  | .unconnectedStage stage => [("stage", stage)]
  | .validationStarted pipeline stageCount =>
    [("pipeline", pipeline), ("stage_count", toString stageCount)]
  | .validationCompleted pipeline => [("pipeline", pipeline)]
  | .validationFailed pipeline reason => [("pipeline", pipeline), ("reason", reason)]

end Report

structure Span where
  name : String
  level : LogLevel
  fields : List (String × String)

namespace Report

def spanName : Report → String
  | .assemblyStarted .. => "assembly"
  | .assemblyCompleted .. => "assembly_completed"
  | .assemblyFailed .. => "assembly_failed"
  | .shutdownStarted .. => "shutdown"
  | .shutdownCompleted .. => "shutdown_completed"
  | .routeCompiled .. => "route_compiled"
  | .routeRejected .. => "route_rejected"
  | .parcelForwarded .. => "unit_forwarded"
  | .fanOutRouted .. => "fan_out_routed"
  | .messageOpened .. => "message_opened"
  | .parameterReset .. => "parameter_reset"
  | .parameterRefreshed .. => "dynamic_parameter_refreshed"
  | .closeDeferred .. => "close_deferred"
  | .reentrancySuppressed .. => "reentrancy_suppressed"
  | .stageClosed .. => "stage_closed"
  | .processingStarted .. => "unit_processing"
  | .processingCompleted .. => "unit_processing_completed"
  | .stageFailed .. => "stage_failed"
  | .tankResized .. => "tank_resized"
  | .tankForwarded .. => "tank_forwarded"
  | .unconnectedStage .. | .validationStarted .. | .validationCompleted ..
  | .validationFailed .. => "span_name"

def labelField (r : Report) : String := if r.spanName = "span_name" then "name" else "span_name"

def spanFields : Report → List (String × String)
  | .assemblyStarted pipeline _ => [("pipeline", pipeline)]
  | .assemblyCompleted pipeline nodeCount _ took =>
    [("pipeline", pipeline), ("node_count", toString nodeCount), ("duration", took.text)]
  | .shutdownCompleted pipeline took => [("pipeline", pipeline), ("duration", took.text)]
  | .routeCompiled _ nodeCount edgeCount =>
    [("node_count", toString nodeCount), ("edge_count", toString edgeCount)]
  | .routeRejected _ error => [("error", error)]
  | .messageOpened stage message => [("stage", stage), ("verb", message.verb)]
  | .parameterReset stage parameter _ => [("stage", stage), ("parameter", parameter)]
  | .processingCompleted stage _ _ took => [("stage", stage), ("duration", took.text)]
  | .tankResized stage capacity _ _ => [("stage", stage), ("capacity", toString capacity)]
  | report => report.fields

def span (r : Report) (name : String) : Span :=
  ⟨r.spanName, r.level, (r.labelField, name) :: r.spanFields⟩

end Report

abbrev Reporting := StateM (List Report)

def report (r : Report) : Reporting PUnit := modify (· ++ [r])

end Sluice
