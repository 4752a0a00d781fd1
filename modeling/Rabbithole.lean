import Rabbithole.Swarm.Lanes
import Rabbithole.Swarm.Lent
import Rabbithole.Swarm.Availability
import Rabbithole.Boards.Tombstone
import Rabbithole.Boards.Replay
import Rabbithole.Boards.Threads
import Rabbithole.Permissions.Evaluator
import Rabbithole.Dedup.Exclusive
import Rabbithole.Catalog.SoftState
import Rabbithole.Federation.Admission
import Rabbithole.Manifest.Canonical
import Rabbithole.Zmodem.Intake
import Rabbithole.Reticulum.Coverage
import Rabbithole.Reticulum.MessageStore
import Rabbithole.Reticulum.Canonical
import Rabbithole.Binkp.Safety
import Rabbithole.Binkp.Together
import Rabbithole.E2ee.Replay
import Rabbithole.E2ee.Losses
import Rabbithole.Icecast.Metaread
import Rabbithole.Icecast.Titles
import Rabbithole.Qwk.RepAccepts
import Rabbithole.Tracker.Htrk
import Rabbithole.Tracker.Provenance
import Rabbithole.Directory.Rollback
import Rabbithole.Tracker.Published
import Rabbithole.Tracker.Rotation
import Rabbithole.Art.Ansi
import Rabbithole.Proto.FrameCodec
import Rabbithole.Radio.FlacRenumber
import Rabbithole.Radio.FlacSearch
import Rabbithole.Radio.Ogg
import Rabbithole.Radio.Queue
import Rabbithole.Federation.HistoryPasses
import Rabbithole.Federation.HistoryCovered
import Rabbithole.Staging.Reserved
import Rabbithole.Blobs.Referenced
import Rabbithole.Markdown.Entities
import Rabbithole.FedCatalog.Live
import Rabbithole.FedCatalog.Replay
import Rabbithole.FedCatalog.Dedupe
import Rabbithole.Manifest.Identity
import Rabbithole.RateLimit.Sweep
import Rabbithole.Zmodem.MoreInput
import Rabbithole.Link.Total
import Rabbithole.Federation.Endpoints
import Rabbithole.Chat.SlowMode
import Rabbithole.Moderation.Mirrors
import Rabbithole.Files.Crossings
import Rabbithole.Telnet.Replies
import Rabbithole.Nntp.Wildmat
import Rabbithole.Zmodem.Recovery
import Rabbithole.Reticulum.Lxmf
import Rabbithole.Reticulum.Polling
import Rabbithole.Reticulum.Waiting
import Rabbithole.Qwk.Control
import Rabbithole.Ftn.Nodelist
import Rabbithole.Ftn.Scanner
import Rabbithole.Hotline.Transaction
import Rabbithole.Syndication.Rendered
