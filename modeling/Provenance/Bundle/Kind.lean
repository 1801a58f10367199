/-!
# Kinds and states of bundles

A bundle holds uploaded contents (a dataset), is assembled from its dependencies (a make), or is the
output of a command (a run).  Each kind declares the metadata keys it knows; some of them are
computed by the service and are no part of what a bundle is created from.
-/

namespace Provenance

/-- The kind of a bundle. -/
inductive BundleKind where
  /-- Uploaded contents. -/
  | dataset
  /-- Contents assembled from the dependencies. -/
  | make
  /-- The output of a command. -/
  | run
deriving DecidableEq

/-- A metadata key that a kind of bundle declares. -/
structure MetadataField where
  key : String
  /-- Computed by the service. -/
  generated : Bool
deriving DecidableEq

namespace BundleKind

/-- The word for a kind. -/
def name : BundleKind → String
  | dataset => "dataset"
  | make => "make"
  | run => "run"

/-- The kind that a word stands for. -/
def ofName? (word : String) : Option BundleKind :=
  if word = "dataset" then some dataset
  else if word = "make" then some make
  else if word = "run" then some run
  else none

theorem ofName?_name (kind : BundleKind) : ofName? kind.name = some kind := by
  cases kind <;> rfl

/-- Derived bundles can be made again from their description. -/
def isDerived : BundleKind → Bool
  | dataset => false
  | make | run => true

/-- The keys a creator sets. -/
def settableKeys : BundleKind → List String
  | dataset =>
    ["name", "description", "tags", "license", "source_url", "link_url", "link_format"]
  | make => ["name", "description", "tags", "allow_failed_dependencies"]
  | run =>
    ["name", "description", "tags", "allow_failed_dependencies", "request_docker_image",
      "request_time", "request_memory", "request_disk", "request_cpus", "request_gpus",
      "request_queue", "request_priority", "request_network", "exclude_patterns", "store"]

/-- The keys the service computes. -/
def generatedKeys : BundleKind → List String
  | dataset => ["created", "data_size", "failure_message"]
  | make => ["created", "data_size", "failure_message", "error_traceback"]
  | run =>
    ["created", "data_size", "failure_message", "error_traceback", "actions", "time", "time_user",
      "time_system", "memory", "memory_max", "started", "last_updated", "run_status",
      "staged_status", "time_preparing", "time_running", "time_cleaning_up",
      "time_uploading_results", "docker_image", "exitcode", "job_handle", "remote",
      "remote_history", "on_preemptible_worker"]

/-- The declared keys, those of the creator first. -/
def fields (kind : BundleKind) : List MetadataField :=
  kind.settableKeys.map (⟨·, false⟩) ++ kind.generatedKeys.map (⟨·, true⟩)

end BundleKind

/-- Where a bundle stands in its life. -/
inductive BundleState where
  | created
  | uploading
  | making
  | staged
  | starting
  | preparing
  | running
  | finalizing
  | ready
  | failed
  | killed
  | workerOffline
  /-- A state that is not known here. -/
  | unknown
deriving DecidableEq

namespace BundleState

/-- The word for a state. -/
def name : BundleState → String
  | created => "created"
  | uploading => "uploading"
  | making => "making"
  | staged => "staged"
  | starting => "starting"
  | preparing => "preparing"
  | running => "running"
  | finalizing => "finalizing"
  | ready => "ready"
  | failed => "failed"
  | killed => "killed"
  | workerOffline => "worker_offline"
  | unknown => "unknown"

/-- The states that have a word of their own. -/
def known : List BundleState :=
  [created, uploading, making, staged, starting, preparing, running, finalizing, ready, failed,
    killed, workerOffline]

/-- The state that a word stands for; any other word stands for an unknown state. -/
def ofName (word : String) : BundleState :=
  (known.find? fun state => state.name = word).getD unknown

theorem ofName_name (state : BundleState) : ofName state.name = state := by
  cases state <;> rfl

/-- States that a bundle never leaves. -/
def isFinal : BundleState → Bool
  | ready | failed | killed => true
  | created | uploading | making | staged | starting | preparing | running | finalizing
  | workerOffline | unknown => false

/-- What a state means for a bundle of a kind, in a sentence; empty where nothing is known. -/
def explanation : BundleKind → BundleState → String
  | .dataset, created => "Bundle has been created but its contents have not been uploaded yet."
  | .dataset, uploading => "Bundle contents are being uploaded."
  | .dataset, ready =>
    "Bundle has finished uploading successfully, and is ready to be used for further runs."
  | .dataset, failed => "Bundle uploading failed."
  | .make, created => "Bundle has been created but its contents have not yet been populated."
  | .make, making => "Bundle contents are being populated by copying its dependencies."
  | .make, ready =>
    "Bundle contents have been successfully populated and is ready for further runs."
  | .make, failed => "Populating bundle contents failed."
  | .run, created => "Bundle has been created but its contents have not been populated yet."
  | .run, staged =>
    "Bundle's dependencies are all ready. Waiting for the bundle to be assigned to a worker to be run."
  | .run, starting =>
    "Bundle has been assigned to a worker. Waiting for worker to start the bundle."
  | .run, finalizing => "Bundle command has finished executing, cleaning up on the worker."
  | .run, ready =>
    "Bundle command has finished executing successfully, and results have been uploaded to the server."
  | .run, failed => "Bundle has failed."
  | .run, killed =>
    "Bundle was killed by the user. Bundle contents populated based on when the bundle was killed."
  | .run, workerOffline =>
    "The worker where the bundle is running on is offline, and the worker might or might not come back online."
  | _, _ => ""

end BundleState

end Provenance
