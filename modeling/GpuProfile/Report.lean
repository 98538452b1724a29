import GpuProfile.Profile.Codec

namespace GpuProfile

open Json

def schemaVersion : String := "1.0.0"

structure Report (α : Type) where
  version : String
  source : String
  generatedAt : String
  profile : Profile α

namespace Report

variable {α : Type}

def ofProfile (profile : Profile α) (source generatedAt : String) : Report α :=
  ⟨schemaVersion, source, generatedAt, profile⟩

def codec (value : Codec α) : Codec (Report α) :=
  .record "CounterReport"
    (.required "version" [] .string <|
      .required "source" [] .string <|
      .required "generated_at" [] .string <|
      .required "metrics" [] (.list Metric.codec) <|
      .required "entries" [] (.list (Entry.codec value)) .nil)
    (fun (version, source, generatedAt, metrics, entries, _) =>
      ⟨version, source, generatedAt, ⟨metrics, entries⟩⟩)
    fun r => (r.version, r.source, r.generatedAt, r.profile.metrics, r.profile.entries, ())

def text (r : Report Float) : String := ((codec .float).write r).text .indented

def ofText (s : String) : Except TextFault (Report Float) := (codec .float).readText s

end Report

end GpuProfile
