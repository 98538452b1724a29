import GpuProfile.Trace

namespace GpuProfile

inductive Warning where
  | ignoredSlices (json : String)
  | noSlices
  | noCounters
  | skippedCounter (name : String) (metric : MetricId)
  deriving DecidableEq

def Warning.message : Warning → String
  | .ignoredSlices json => "Ignoring slice section of unexpected type: " ++ json
  | .noSlices => "No GPU slices found in profiling data"
  | .noCounters => "No hardware counters found in profiling data"
  | .skippedCounter name metric =>
    "Counter '" ++ name ++ "' uses an unsupported aggregation operator, skipping metric " ++
      toString metric.toInt

abbrev Warned (ε τ : Type) : Type := ExceptT ε (StateM (List Warning)) τ

namespace Warned

variable {ε τ : Type}

def warn (w : Warning) : Warned ε Unit := modify (· ++ [w])

def ofExcept {ε' : Type} (wrap : ε' → ε) : Except ε' τ → Warned ε τ
  | .ok x => pure x
  | .error e => throw (wrap e)

def adapt {ε' : Type} (x : Warned ε τ) (wrap : ε → ε') : Warned ε' τ := ExceptT.adapt wrap x

def outcome (x : Warned ε τ) : Except ε τ × List Warning := x.run.run []

end Warned

end GpuProfile
