import MyLifeHome.Library.Runs
import MyLifeHome.Links.Typing
import MyLifeHome.Core.Delivery
import MyLifeHome.Core.Wiring
import MyLifeHome.Nick.RoundTrip
import MyLifeHome.Links.Registry
import MyLifeHome.Links.Delivery
import MyLifeHome.Links.Lifetime
import MyLifeHome.Watcher.Mirror
import MyLifeHome.Scenes.WallSwitch
import MyLifeHome.Links.Replay
import MyLifeHome.Nick.Tracking
import MyLifeHome.Components.Messages
import MyLifeHome.Components.Agreement
import MyLifeHome.Core.Components
import MyLifeHome.Core.Api
import MyLifeHome.Core.Sound
import MyLifeHome.Designer.Merge
import MyLifeHome.Designer.Convergence
import MyLifeHome.Registries.Coherence
import MyLifeHome.Registries.Restart
import MyLifeHome.Components.Types
import MyLifeHome.Components.Mpd
import MyLifeHome.Designer.Page
import MyLifeHome.Ui.Channel
import MyLifeHome.Designer.Editing
import MyLifeHome.Irc.CommandUtils
import MyLifeHome.Irc.Commands
import MyLifeHome.Irc.Removal
import MyLifeHome.Irc.Addition
import MyLifeHome.Irc.Sending
import MyLifeHome.Irc.Runs
import MyLifeHome.Irc.Wire
import MyLifeHome.Library.TreeRouting
import MyLifeHome.Irc.Routing
import MyLifeHome.Irc.Federation
import MyLifeHome.Irc.Reading
import MyLifeHome.Irc.Ready
import MyLifeHome.Irc.Writing
import MyLifeHome.Irc.Serving
import MyLifeHome.Irc.Loop
import MyLifeHome.Core.Emitter
import MyLifeHome.Plugins.Music
import MyLifeHome.Watcher.Counting
import MyLifeHome.Registries.Terminate
import MyLifeHome.Ui.Structure
import MyLifeHome.Components.Loop
import MyLifeHome.Components.Export
import MyLifeHome.Components.Execution
import MyLifeHome.Designer.Import
import MyLifeHome.Library.Rooms
import MyLifeHome.Irc.Client
import MyLifeHome.Irc.Linked
import MyLifeHome.Irc.Telling
import MyLifeHome.Irc.Informed
import MyLifeHome.Irc.Departures
import MyLifeHome.Irc.Arrivals
import MyLifeHome.Irc.Channels
import MyLifeHome.Irc.Truthful
import MyLifeHome.Components.Lists
import MyLifeHome.Components.Timeval
import MyLifeHome.Irc.Packets
import MyLifeHome.Components.Unregister
import MyLifeHome.Designer.Identifiers
import MyLifeHome.Irc.Written
import MyLifeHome.Ui.Gestures
import MyLifeHome.Links.Acyclic
import MyLifeHome.Components.Gpio
import MyLifeHome.Library.Passes
import MyLifeHome.Ui.Designer
import MyLifeHome.Ui.Repair
import MyLifeHome.Library.Replication
import MyLifeHome.Library.Visits
import MyLifeHome.Library.Draining
import MyLifeHome.Irc.Updates
import MyLifeHome.Irc.Depiction
import MyLifeHome.Irc.Spreading
import MyLifeHome.Irc.Turns
import MyLifeHome.Irc.Announcing
import MyLifeHome.Irc.Clients
import MyLifeHome.Irc.Relaying
import MyLifeHome.Irc.Syncing
import MyLifeHome.Irc.Meeting
import MyLifeHome.Irc.Mesh
import MyLifeHome.Irc.Cluster
import MyLifeHome.Irc.Agreement
