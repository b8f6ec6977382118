import FieldStore.Machine.Size
import FieldStore.Machine.Binary
import FieldStore.Machine.Arithmetic
import FieldStore.Machine.Convert
import FieldStore.Machine.Window
import FieldStore.Machine.Lanes
import FieldStore.Grid.Group
import FieldStore.Element.Type
import FieldStore.Element.Text
import FieldStore.Element.Value
import FieldStore.Error
import FieldStore.Element.WellFormed
import FieldStore.Element.Layout
import FieldStore.Element.Encode
import FieldStore.Element.Decode
import FieldStore.Grid.Shape
import FieldStore.Grid.Nested
import FieldStore.Event
import FieldStore.Device.Settings
import FieldStore.Device.Memory
import FieldStore.Device.Buffer
import FieldStore.Image.Texture
import FieldStore.Store.Field
import FieldStore.Store.Host
import FieldStore.Store.Access
import FieldStore.Store.Session
import FieldStore.Machine.Decimal
import FieldStore.Demo
import FieldStore.Main
import FieldStore.Proofs.Element.Entries
import FieldStore.Proofs.Element.Layout
import FieldStore.Proofs.Element.Value
import FieldStore.Proofs.Grid.Chunks
import FieldStore.Proofs.Grid.Groups
import FieldStore.Proofs.Machine.Window
import FieldStore.Proofs.Machine.Size
import FieldStore.Proofs.Machine.Convert
import FieldStore.Proofs.Machine.Arithmetic
import FieldStore.Proofs.Machine.Integer
import FieldStore.Proofs.Element.WellFormed
import FieldStore.Proofs.Element.Encode
import FieldStore.Proofs.Element.Decode
import FieldStore.Proofs.Element.RoundTrip
import FieldStore.Proofs.Store.Run
import FieldStore.Proofs.Machine.Bytes
import FieldStore.Proofs.Machine.Views
import FieldStore.Proofs.Grid.Shape
import FieldStore.Proofs.Grid.Nested
import FieldStore.Proofs.Device.Memory
import FieldStore.Proofs.Store.Arrangement
import FieldStore.Proofs.Store.Backing
import FieldStore.Proofs.Store.Materialize
import FieldStore.Proofs.Store.Transfer
import FieldStore.Proofs.Store.Command
import FieldStore.Proofs.Store.Placement
import FieldStore.Proofs.Store.Declaration
import FieldStore.Proofs.Store.Held
import FieldStore.Proofs.Store.Contents
import FieldStore.Proofs.Store.Granting
import FieldStore.Proofs.Store.Access
import FieldStore.Proofs.Store.Availability
import FieldStore.Proofs.Grid.Tuples
import FieldStore.Proofs.Store.Writes
import FieldStore.Proofs.Store.Reads
import FieldStore.Proofs.Tasks.Pool
import FieldStore.Proofs.Tasks.Orderly
import FieldStore.Proofs.Tasks.Serving
import FieldStore.Proofs.Tasks.Alone
import FieldStore.Proofs.Store.Demand
import FieldStore.Proofs.Store.Failures
import FieldStore.Proofs.Store.Expected
import FieldStore.Proofs.Store.Blocked
import FieldStore.Proofs.Store.InStep
import FieldStore.Proofs.Store.Limits
import FieldStore.Proofs.Device.WordMemory
import FieldStore.Proofs.Device.Buffer
import FieldStore.Proofs.Device.Spelling
import FieldStore.Proofs.Device.Settings
import FieldStore.Proofs.Store.Movement
import FieldStore.Proofs.Store.Accounting
import FieldStore.Proofs.Store.Idempotence
import FieldStore.Proofs.Element.Path
import FieldStore.Proofs.Element.Tiling
import FieldStore.Proofs.Element.Offence
import FieldStore.Proofs.Element.Reading
import FieldStore.Proofs.Element.Locality
import FieldStore.Proofs.Element.Sequence
import FieldStore.Proofs.Grid.Folding
import FieldStore.Proofs.Grid.Positions
import FieldStore.Proofs.Store.Ranges
import FieldStore.Proofs.Store.Books
import FieldStore.Proofs.Store.Foreign
import FieldStore.Proofs.Store.Counter
import FieldStore.Proofs.Image.Texture
import FieldStore.Proofs.Image.Handles
