import LedgerClient.Amount.Decimal
import LedgerClient.Amount.DecimalText
import LedgerClient.Amount.Fixed8
import LedgerClient.Bytes.Basic
import LedgerClient.Bytes.Hex
import LedgerClient.Bytes.Radix
import LedgerClient.Bytes.Signed
import LedgerClient.Call.Error
import LedgerClient.Call.Plan
import LedgerClient.Call.Prepared
import LedgerClient.Config.Network
import LedgerClient.Config.Settings
import LedgerClient.Contract.Deployment
import LedgerClient.Contract.Description
import LedgerClient.Contract.EntryPoint
import LedgerClient.Contract.Error
import LedgerClient.Contract.Inspection
import LedgerClient.Hash.Digest
import LedgerClient.Hash.Hmac
import LedgerClient.Hash.Ripemd160
import LedgerClient.Hash.Sha256
import LedgerClient.Json.Forms
import LedgerClient.Json.Inspection
import LedgerClient.Json.Numeral
import LedgerClient.Json.Reading
import LedgerClient.Json.Record
import LedgerClient.Json.Token
import LedgerClient.Json.Value
import LedgerClient.Ledger.Address
import LedgerClient.Ledger.Attribute
import LedgerClient.Ledger.Cosigner
import LedgerClient.Ledger.Digest
import LedgerClient.Ledger.Error
import LedgerClient.Ledger.Input
import LedgerClient.Ledger.Inspection
import LedgerClient.Ledger.Invocation
import LedgerClient.Ledger.Output
import LedgerClient.Ledger.Transaction
import LedgerClient.Ledger.WireForm
import LedgerClient.Ledger.Witness
import LedgerClient.Ledger.Witnessed
import LedgerClient.Limits
import LedgerClient.Number.Binary64
import LedgerClient.Number.Power
import LedgerClient.Number.Shortest
import LedgerClient.Proofs.Amount.Count
import LedgerClient.Proofs.Bytes.Signed
import LedgerClient.Proofs.Call.Amounts
import LedgerClient.Proofs.Call.Buildable
import LedgerClient.Proofs.Call.Building
import LedgerClient.Proofs.Call.Conservation
import LedgerClient.Proofs.Call.Funding
import LedgerClient.Proofs.Call.SpendOnce
import LedgerClient.Proofs.Ledger.Decoded
import LedgerClient.Proofs.Ledger.Draft
import LedgerClient.Proofs.Ledger.HashOrder
import LedgerClient.Proofs.Ledger.Payload
import LedgerClient.Proofs.Ledger.RoundTrip
import LedgerClient.Proofs.Ledger.WitnessOrder
import LedgerClient.Proofs.Ledger.Witnessing
import LedgerClient.Proofs.Ledger.Worth
import LedgerClient.Proofs.Result
import LedgerClient.Proofs.Script.Execution
import LedgerClient.Proofs.Script.Machine
import LedgerClient.Proofs.Script.Pushable
import LedgerClient.Proofs.Wallet.Cover
import LedgerClient.Proofs.Wallet.Store
import LedgerClient.Proofs.Wire.Delimiting
import LedgerClient.Proofs.Wire.Extent
import LedgerClient.Proofs.Wire.Reading
import LedgerClient.Proofs.Wire.Yield
import LedgerClient.Rpc.ApplicationLog
import LedgerClient.Rpc.Client
import LedgerClient.Rpc.Endpoint
import LedgerClient.Rpc.Failure
import LedgerClient.Rpc.Forms
import LedgerClient.Rpc.Host
import LedgerClient.Rpc.Inspection
import LedgerClient.Rpc.Message
import LedgerClient.Rpc.Node
import LedgerClient.Rpc.Rehearsal
import LedgerClient.Rpc.Tracker
import LedgerClient.Script.Assembly
import LedgerClient.Script.Error
import LedgerClient.Script.Opcode
import LedgerClient.Script.Outcome
import LedgerClient.Script.Parameter
import LedgerClient.Script.Reading
import LedgerClient.Signature.Curve
import LedgerClient.Signature.Ecdsa
import LedgerClient.Signature.Error
import LedgerClient.Signature.Key
import LedgerClient.Text.Base58
import LedgerClient.Text.Base58Check
import LedgerClient.Text.Blank
import LedgerClient.Text.Case
import LedgerClient.Text.Escaped
import LedgerClient.Text.Percent
import LedgerClient.Text.Split
import LedgerClient.Toml.Number
import LedgerClient.Toml.Reading
import LedgerClient.Toml.Scanner
import LedgerClient.Toml.Value
import LedgerClient.Wallet.Account
import LedgerClient.Wallet.Error
import LedgerClient.Wallet.Inspection
import LedgerClient.Wallet.KeyPair
import LedgerClient.Wallet.Selection
import LedgerClient.Wallet.Strategy
import LedgerClient.Wallet.Summary
import LedgerClient.Wire.Compact
import LedgerClient.Wire.Cursor
import LedgerClient.Wire.Emission
import LedgerClient.Wire.Error
import LedgerClient.Wire.Form
import LedgerClient.Proofs.Wire.Restating
import LedgerClient.Proofs.Ledger.Canonical
import LedgerClient.Proofs.Wallet.Selecting
import LedgerClient.Proofs.Call.Lifecycle
import LedgerClient.Proofs.Rpc.Waiting
import LedgerClient.Proofs.Bytes.Text
import LedgerClient.Proofs.Wire.Spelling
import LedgerClient.Proofs.Script.Spelling
import LedgerClient.Proofs.Contract.Spelling
import LedgerClient.Proofs.Contract.RoundTrip
import LedgerClient.Proofs.Wire.Truncation
import LedgerClient.Proofs.Ledger.Truncation
import LedgerClient.Proofs.Script.Truncation
import LedgerClient.Proofs.Contract.Truncation
import LedgerClient.Proofs.Wallet.Bookkeeping
import LedgerClient.Proofs.Script.Pieces
import LedgerClient.Proofs.Ledger.TransactionRoundTrip
import LedgerClient.Proofs.Amount.Written
import LedgerClient.Proofs.Amount.Reading
import LedgerClient.Proofs.Amount.Printing
import LedgerClient.Proofs.Call.AmountTexts
import LedgerClient.Proofs.Wallet.Fewest
import LedgerClient.Proofs.Script.Shortest
import LedgerClient.Proofs.Script.Refusal
import LedgerClient.Proofs.Rpc.Growth
import LedgerClient.Proofs.Ledger.Admission
import LedgerClient.Proofs.Call.Attaching
import LedgerClient.Proofs.Ledger.Payment
import LedgerClient.Proofs.Ledger.Cosigning
import LedgerClient.Proofs.Bytes.Rebase
import LedgerClient.Proofs.Text.Base58
import LedgerClient.Proofs.Ledger.Address
import LedgerClient.Proofs.Wallet.Exported
import LedgerClient.Proofs.Wire.Sizes
import LedgerClient.Proofs.Ledger.Sizes
import LedgerClient.Proofs.Text.Case
import LedgerClient.Proofs.Rpc.Unconfirmed
import LedgerClient.Proofs.Wire.Relocation
import LedgerClient.Proofs.Contract.Capabilities
import LedgerClient.Proofs.Bytes.Hex
import LedgerClient.Proofs.Ledger.HashText
import LedgerClient.Proofs.Ledger.ShownOrder
import LedgerClient.Proofs.Json.Whole
import LedgerClient.Proofs.Json.Record
import LedgerClient.Proofs.Rpc.LogForm
import LedgerClient.Proofs.Wire.Counting
import LedgerClient.Proofs.Text.Parts
import LedgerClient.Proofs.Script.Reports
import LedgerClient.Proofs.Wire.Locality
import LedgerClient.Proofs.Script.Locality
import LedgerClient.Proofs.Ledger.Locality
