import LivePlayback.Main
import LivePlayback.Rehearsal.Exchange
import LivePlayback.Rehearsal.Latest
import LivePlayback.Rehearsal.Queue
import LivePlayback.Rehearsal.Replay
import LivePlayback.Rehearsal.Report
import LivePlayback.Rehearsal.Timer
import LivePlayback.Proofs.Capture.Interruption
import LivePlayback.Proofs.Capture.Playback
import LivePlayback.Proofs.Capture.Records
import LivePlayback.Proofs.Entries
import LivePlayback.Proofs.Exchange.Finality
import LivePlayback.Proofs.Json.Legibility
import LivePlayback.Proofs.Json.Numerals
import LivePlayback.Proofs.Json.Reading
import LivePlayback.Proofs.Latest.Content
import LivePlayback.Proofs.Latest.Spacing
import LivePlayback.Proofs.Metadata.Fields
import LivePlayback.Proofs.Metadata.Reencoding
import LivePlayback.Proofs.Player.Loss
import LivePlayback.Proofs.Player.Shutdown
import LivePlayback.Proofs.Queue.Draining
import LivePlayback.Proofs.Session.Accounts
import LivePlayback.Proofs.Session.Attendance
import LivePlayback.Proofs.Session.Following
import LivePlayback.Proofs.Session.Interference
import LivePlayback.Proofs.Session.Overlaps
import LivePlayback.Proofs.Session.Perseverance
import LivePlayback.Proofs.Session.Protocol
import LivePlayback.Proofs.Session.States
import LivePlayback.Proofs.Session.Terminality
import LivePlayback.Proofs.Session.Promptness
import LivePlayback.Proofs.Session.Tallies
import LivePlayback.Proofs.Decimal.Rounding
import LivePlayback.Proofs.Frame.Grammar
import LivePlayback.Proofs.Frame.Announcements
import LivePlayback.Proofs.Latest.Rates
import LivePlayback.Proofs.Metadata.Totals
import LivePlayback.Proofs.Player.Starting
import LivePlayback.Proofs.Timer.Waiting
import LivePlayback.Proofs.Capture.Pacing
