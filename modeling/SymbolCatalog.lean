import SymbolCatalog.Config.Document
import SymbolCatalog.NameIndex.Session
import SymbolCatalog.Store.Probe
import SymbolCatalog.Tree.Build
import SymbolCatalog.Tree.MethodView
import SymbolCatalog.Wire.Lemmas
import SymbolCatalog.Proofs.KeyIndex.Image
import SymbolCatalog.Proofs.KeyIndex.Order
import SymbolCatalog.Proofs.KeyIndex.Interrupted
import SymbolCatalog.Proofs.Text.Utf8
import SymbolCatalog.Proofs.Wire.Values
import SymbolCatalog.Proofs.Record.Reading
import SymbolCatalog.Proofs.Tree.Preorder
import SymbolCatalog.Proofs.Tree.Payload
import SymbolCatalog.Proofs.Tree.Decoding
import SymbolCatalog.Proofs.Tree.RoundTrip
import SymbolCatalog.Proofs.LruCache
import SymbolCatalog.Proofs.Tree.Declarations
import SymbolCatalog.Proofs.NameIndex.Holds
import SymbolCatalog.Proofs.NameIndex.Calls
import SymbolCatalog.Proofs.NameIndex.Resolution
import SymbolCatalog.Proofs.NameIndex.Lookup
import SymbolCatalog.Proofs.Signature.Grammar
import SymbolCatalog.Proofs.Signature.Types
import SymbolCatalog.Proofs.Signature.Exactness
import SymbolCatalog.Proofs.Wire.Yields
import SymbolCatalog.Proofs.Record.Sizes
import SymbolCatalog.Proofs.KeyIndex.Within
import SymbolCatalog.Proofs.NameIndex.Backed
import SymbolCatalog.Proofs.NameIndex.Transparency
import SymbolCatalog.Proofs.Tree.Canonical
import SymbolCatalog.Proofs.NameIndex.Restart
import SymbolCatalog.Proofs.Store.Packed
import SymbolCatalog.Proofs.Store.Snapshot
import SymbolCatalog.Proofs.Store.Durability
import SymbolCatalog.Proofs.Container
import SymbolCatalog.Proofs.KeyIndex.Enumeration
import SymbolCatalog.Proofs.NameIndex.Removal
import SymbolCatalog.Proofs.Signature.Descriptors
import SymbolCatalog.Proofs.Tree.Build
import SymbolCatalog.Proofs.KeyIndex.Clearing
import SymbolCatalog.Proofs.Tree.Settled
import SymbolCatalog.Proofs.NameIndex.Drift
import SymbolCatalog.Proofs.NameIndex.Rollback
import SymbolCatalog.Proofs.Signature.Renaming
import SymbolCatalog.Proofs.Tree.Growth
import SymbolCatalog.Proofs.Tree.Parts
import SymbolCatalog.Proofs.Tree.MethodNodes
import SymbolCatalog.Proofs.Tree.Methods
import SymbolCatalog.Proofs.Tree.Versions
import SymbolCatalog.Proofs.Signature.Sources
import SymbolCatalog.Proofs.Wire.Forms
import SymbolCatalog.Proofs.Wire.Extent
import SymbolCatalog.Proofs.Record.Extent
import SymbolCatalog.Proofs.Store.Opening
import SymbolCatalog.Proofs.Tree.Parameters
import SymbolCatalog.Proofs.Tree.Annotations
import SymbolCatalog.Proofs.TypeRef.Text
import SymbolCatalog.Proofs.TypeRef.Varargs
import SymbolCatalog.Proofs.Tree.Visiting
import SymbolCatalog.Proofs.Signature.Scanning
import SymbolCatalog.Proofs.Store.Listing
