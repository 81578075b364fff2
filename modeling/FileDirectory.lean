import FileDirectory.Main
import FileDirectory.Proofs.Catalog.Indexed
import FileDirectory.Proofs.Catalog.Order
import FileDirectory.Proofs.Catalog.Partition
import FileDirectory.Proofs.Catalog.Recordable
import FileDirectory.Proofs.Catalog.Step
import FileDirectory.Proofs.Directory.Accepted
import FileDirectory.Proofs.Directory.Format
import FileDirectory.Proofs.Directory.Interrupted
import FileDirectory.Proofs.Directory.Journal
import FileDirectory.Proofs.Directory.Mirrored
import FileDirectory.Proofs.Directory.Operations
import FileDirectory.Proofs.Directory.Recorded
import FileDirectory.Proofs.Directory.Resumed
import FileDirectory.Proofs.Keyed
import FileDirectory.Proofs.Medium.Sectors
import FileDirectory.Proofs.Pack.ExtentTable
import FileDirectory.Proofs.Pack.FreeSpace
import FileDirectory.Proofs.Packed.RoundTrip
import FileDirectory.Proofs.Record.RoundTrip
import FileDirectory.Proofs.Recovery.Found
import FileDirectory.Proofs.Recovery.Healthy
import FileDirectory.Proofs.Recovery.Ledger
import FileDirectory.Proofs.Recovery.Mirror
import FileDirectory.Proofs.Recovery.Rebuilt
import FileDirectory.Proofs.Recovery.Recovered
import FileDirectory.Proofs.Recovery.Remains
import FileDirectory.Proofs.Store.Mirrored
import FileDirectory.Proofs.Store.Recorded
import FileDirectory.Proofs.Store.Staging
import FileDirectory.Proofs.Roster
import FileDirectory.Proofs.Text.Fieldata
import FileDirectory.Proofs.Word.Join
import FileDirectory.Request
import FileDirectory.Text.Quarter
import FileDirectory.Word.Signed
import FileDirectory.Proofs.Directory.Refused
import FileDirectory.Proofs.Directory.Reached
import FileDirectory.Proofs.Directory.Owned
import FileDirectory.Proofs.Catalog.Window
import FileDirectory.Proofs.Directory.Windowed
import FileDirectory.Proofs.Catalog.Newest
import FileDirectory.Proofs.Directory.Newest
import FileDirectory.Proofs.Catalog.Turn
import FileDirectory.Proofs.Catalog.Bookkeeping
import FileDirectory.Proofs.Directory.Performed
import FileDirectory.Proofs.Directory.Bookkeeping
import FileDirectory.Proofs.Catalog.Life
import FileDirectory.Proofs.Directory.Removed
import FileDirectory.Proofs.Directory.Life
import FileDirectory.Proofs.Store.Vacant
import FileDirectory.Proofs.Directory.Sectors
import FileDirectory.Proofs.Directory.Alike
import FileDirectory.Proofs.Record.Sector
import FileDirectory.Proofs.Recovery.Contents
import FileDirectory.Proofs.Recovery.Divided
import FileDirectory.Proofs.Pack.Rebuilding
import FileDirectory.Proofs.Directory.Admitted
import FileDirectory.Proofs.Directory.Rearranged
import FileDirectory.Proofs.Record.Stable
import FileDirectory.Proofs.Recovery.Settled
import FileDirectory.Proofs.Directory.Inherited
import FileDirectory.Proofs.Directory.Repeated
import FileDirectory.Index
import FileDirectory.Proofs.Catalog.Asked
import FileDirectory.Proofs.Index
import FileDirectory.Proofs.Catalog.Moved
import FileDirectory.Proofs.Directory.Tabled
import FileDirectory.Proofs.Directory.Consistent
import FileDirectory.Proofs.Catalog.Revised
import FileDirectory.Proofs.Directory.Protected
import FileDirectory.Proofs.Directory.Confined
import FileDirectory.Proofs.Directory.Recalled
import FileDirectory.Proofs.Recovery.Leftover
import FileDirectory.Proofs.Store.Spared
import FileDirectory.Proofs.Directory.Granules
import FileDirectory.Proofs.Tool.RoundTrip
import FileDirectory.Proofs.Source.Scan
import FileDirectory.Proofs.Source.Lines
import FileDirectory.Proofs.Pack.Mapping
import FileDirectory.Proofs.Directory.Backed
import FileDirectory.Proofs.Directory.Continued
import FileDirectory.Proofs.Directory.Flagged
import FileDirectory.Proofs.Catalog.Narrowed
import FileDirectory.Proofs.Catalog.Relinquished
import FileDirectory.Proofs.Store.Room
import FileDirectory.Proofs.Directory.Relinquished
import FileDirectory.Proofs.Directory.Missed
import FileDirectory.Proofs.Directory.Declined
import FileDirectory.Proofs.Pack.Neighbours
import FileDirectory.Proofs.Pack.Moves
import FileDirectory.Proofs.Pack.Inserted
import FileDirectory.Proofs.Packed.Transfer
import FileDirectory.Proofs.Medium.Accesses
import FileDirectory.Proofs.Record.Lossless
import FileDirectory.Proofs.Source.Reading
import FileDirectory.Proofs.Word.Signed
import FileDirectory.Proofs.Text.RoundTrip
import FileDirectory.Proofs.Store.Outline
import FileDirectory.Proofs.Directory.Outlined
import FileDirectory.Proofs.Directory.Quiet
import FileDirectory.Proofs.Directory.Ready
