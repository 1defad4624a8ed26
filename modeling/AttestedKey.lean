import AttestedKey.Base64
import AttestedKey.Ber.CharacterSet
import AttestedKey.Ber.Object
import AttestedKey.Ber.Reader
import AttestedKey.Ber.Time
import AttestedKey.Cbor.Float
import AttestedKey.Cbor.Item
import AttestedKey.Cbor.Reader
import AttestedKey.Cbor.Writer
import AttestedKey.Certificate.Algorithm
import AttestedKey.Certificate.Attestation
import AttestedKey.Certificate.Basic
import AttestedKey.Certificate.Canonical
import AttestedKey.Certificate.Conformance
import AttestedKey.Certificate.Fields
import AttestedKey.Certificate.Name
import AttestedKey.Certificate.Trust
import AttestedKey.Certificate.Validity
import AttestedKey.Chain.Basic
import AttestedKey.Chain.Order
import AttestedKey.Chain.SignedData
import AttestedKey.Command.Options
import AttestedKey.Command.Run
import AttestedKey.Cryptography
import AttestedKey.Der.Element
import AttestedKey.Der.Writer
import AttestedKey.Dialogue
import AttestedKey.Digest
import AttestedKey.Evaluation.Certificate
import AttestedKey.Evaluation.Chain
import AttestedKey.Http
import AttestedKey.Instant
import AttestedKey.Json.Reader
import AttestedKey.Json.Token
import AttestedKey.Json.Writer
import AttestedKey.KeyStore.Attested
import AttestedKey.KeyStore.Parameters
import AttestedKey.Main
import AttestedKey.NumberSet
import AttestedKey.Octets
import AttestedKey.Oid
import AttestedKey.Pem
import AttestedKey.Proofs.Anchors
import AttestedKey.Proofs.Checks
import AttestedKey.Proofs.Claims
import AttestedKey.Proofs.Delegation
import AttestedKey.Proofs.DerEncoding
import AttestedKey.Proofs.Entries
import AttestedKey.Proofs.Evaluation
import AttestedKey.Proofs.Numbers
import AttestedKey.Proofs.Properties
import AttestedKey.Proofs.RecordEncoding
import AttestedKey.Proofs.Revocation
import AttestedKey.Proofs.SerialNumber
import AttestedKey.Proofs.StatusList
import AttestedKey.Proofs.SuppliedOrder
import AttestedKey.Proofs.Text
import AttestedKey.Proofs.TokenFormat
import AttestedKey.Proofs.TokenOrder
import AttestedKey.Proofs.Values
import AttestedKey.Proofs.Verdict
import AttestedKey.Proofs.Walk
import AttestedKey.Proofs.WireForms
import AttestedKey.Provisioning.ChainMap
import AttestedKey.Provisioning.Client
import AttestedKey.Provisioning.Device
import AttestedKey.Provisioning.EndpointKeys
import AttestedKey.Provisioning.Error
import AttestedKey.Provisioning.Request
import AttestedKey.Provisioning.RequestId
import AttestedKey.PublicKey.Basic
import AttestedKey.PublicKey.Curve
import AttestedKey.PublicKey.Edwards
import AttestedKey.PublicKey.Modular
import AttestedKey.Record.ApplicationId
import AttestedKey.Record.Attestation
import AttestedKey.Record.AuthorizationList
import AttestedKey.Record.DecodeError
import AttestedKey.Record.Element
import AttestedKey.Record.EntityToken
import AttestedKey.Record.Extension
import AttestedKey.Record.KeyDescription
import AttestedKey.Record.Knox
import AttestedKey.Record.Label
import AttestedKey.Record.ProvisioningInfo
import AttestedKey.Record.RootOfTrust
import AttestedKey.Record.SecurityLevel
import AttestedKey.Record.Tag
import AttestedKey.Report.Evaluation
import AttestedKey.Report.Provisioning
import AttestedKey.Report.Record
import AttestedKey.Revocation.Document
import AttestedKey.Revocation.Entry
import AttestedKey.Revocation.SerialKey
import AttestedKey.Revocation.Store
import AttestedKey.Signature
import AttestedKey.TrustAnchor.Basic
import AttestedKey.TrustAnchor.KnownKey
import AttestedKey.Utf8
import AttestedKey.Word64
import AttestedKey.Proofs.TrustData
import AttestedKey.Proofs.LoadedDocument
import AttestedKey.Proofs.ItemEncoding
import AttestedKey.Proofs.ItemReading
import AttestedKey.Proofs.Conversation
import AttestedKey.Proofs.Query
import AttestedKey.Proofs.AuthenticatedRequest
import AttestedKey.Proofs.ProvisioningSession
import AttestedKey.Proofs.AddedKeys
import AttestedKey.Proofs.OfferedChains
import AttestedKey.Proofs.AllowList
import AttestedKey.Proofs.CanonicalForm
import AttestedKey.Proofs.ElementPrefix
import AttestedKey.Proofs.ExportedChain
import AttestedKey.Proofs.NameOrder
import AttestedKey.Proofs.FetchedKeys
import AttestedKey.Proofs.LegacyRequest
import AttestedKey.Proofs.TaggedElements
import AttestedKey.Proofs.KnoxRecord
import AttestedKey.Proofs.JoinedChain
import AttestedKey.Proofs.PemBlocks
import AttestedKey.Proofs.BundledChain
import AttestedKey.Proofs.SigningAnswers
import AttestedKey.Proofs.BundleAddition
import AttestedKey.Proofs.ApplicationOrder
import AttestedKey.Proofs.ItemFront
import AttestedKey.Proofs.WholeAnswers
import AttestedKey.Proofs.AttestedKeys
import AttestedKey.Proofs.CertificateKey
import AttestedKey.Proofs.KeyEncoding
import AttestedKey.Proofs.RecognisedRoots
import AttestedKey.Proofs.IntegerContent
import AttestedKey.Proofs.ObjectFront
import AttestedKey.Proofs.PrefixFree
