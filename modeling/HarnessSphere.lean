import HarnessSphere.Library.Machine
import HarnessSphere.Library.Utf8
import HarnessSphere.Library.Lines
import HarnessSphere.Library.Words
import HarnessSphere.Library.Table
import HarnessSphere.Library.Edits
import HarnessSphere.Library.Progress
import HarnessSphere.Domain.Signal
import HarnessSphere.Domain.Ports
import HarnessSphere.Domain.Policy
import HarnessSphere.Collectors.Files
import HarnessSphere.Collectors.Text
import HarnessSphere.Collectors.Workspace
import HarnessSphere.Collectors.Transcript
import HarnessSphere.Collectors.Session
import HarnessSphere.Collectors.Learning
import HarnessSphere.Collectors.Series
import HarnessSphere.Collectors.Skills
import HarnessSphere.Collectors.Incremental
import HarnessSphere.Collectors.Cron
import HarnessSphere.Collectors.SinglePass
import HarnessSphere.Collectors.Content
import HarnessSphere.Collectors.Growth
import HarnessSphere.Collectors.Container
import HarnessSphere.Collectors.Cgroup
import HarnessSphere.Collectors.Host
import HarnessSphere.Collectors.Probe
import HarnessSphere.Runtime.Task
import HarnessSphere.Runtime.Supervisor
import HarnessSphere.Runtime.OneWriter
import HarnessSphere.Runtime.Retirement
import HarnessSphere.Runtime.Life
import HarnessSphere.Runtime.Schedule
import HarnessSphere.Runtime.Shutdown
import HarnessSphere.Runtime.Deaths
import HarnessSphere.Runtime.Isolation
import HarnessSphere.Runtime.Cadence
import HarnessSphere.Runtime.Terminal
import HarnessSphere.Runtime.Pipeline
import HarnessSphere.Runtime.Latency
import HarnessSphere.Runtime.Watcher
import HarnessSphere.Runtime.Parts
import HarnessSphere.Runtime.Ending
import HarnessSphere.Runtime.Succession
import HarnessSphere.Export.Requests
import HarnessSphere.Export.Otlp
import HarnessSphere.Export.Streams
import HarnessSphere.Export.Readings
import HarnessSphere.Export.Groups
import HarnessSphere.Export.Delivery
import HarnessSphere.Composition.Boot
import HarnessSphere.Composition.Names
import HarnessSphere.Composition.Keys
import HarnessSphere.Composition.Walk
import HarnessSphere.Composition.Relisting
import HarnessSphere.Composition.Attribution
import HarnessSphere.Composition.Discovery
import HarnessSphere.Composition.Agreement
import HarnessSphere.Composition.CatchUp
import HarnessSphere.Composition.Failures
import HarnessSphere.Composition.Stats
import HarnessSphere.Composition.Sources
import HarnessSphere.Composition.Catalogue
import HarnessSphere.Composition.Ticks
import HarnessSphere.Composition.Backend
import HarnessSphere.Composition.Calls
import HarnessSphere.Composition.Shown
import HarnessSphere.Composition.Successors
import HarnessSphere.Composition.Units
import HarnessSphere.Composition.Main
import HarnessSphere.Composition.Program
import HarnessSphere.Composition.Watched
