import AttestedKey.Base64
import AttestedKey.Cbor.Writer
import AttestedKey.Instant
import AttestedKey.Provisioning.ChainMap
import AttestedKey.Provisioning.Error

/-! What a provisioning server offers a device: chains for the keys of its endpoint, one for each
curve, and the challenge that a certificate request has to carry. As a data item: pairs of a curve
and a chain, and the challenge behind them. A chain is kept as the encoding of its item. -/

namespace AttestedKey

structure EndpointKeys where
  chains : ChainMap
  challenge : Octets
  deriving DecidableEq

namespace EndpointKeys

open Cbor (Item)
open Provisioning

/-- A curve and its chain; what follows them is passed over. -/
def entryOf (x : Item) : Shaped (Int64 × Octets) := do
  let parts ← array "EEK chain entry" x
  let curve ← number "curve" (← nth "EEK chain entry" 0 parts)
  pure (curve, Cbor.write (← nth "EEK chain entry" 1 parts))

def ofItem (x : Item) : Shaped EndpointKeys := do
  let parts ← array "EEK response" x
  let entries ← (← array "EEK chains" (← nth "EEK response" 0 parts)).mapM entryOf
  let challenge ← octets "challenge" (← nth "EEK response" 1 parts)
  pure ⟨.ofList entries, challenge⟩

def decode (bs : Octets) : Shaped EndpointKeys := do ofItem (← item "EEK response" bs)

def entryItem (e : Int64 × Octets) : Shaped Item := do
  let chain ← item "EEK chain" e.2
  pure (.array [Item.ofInt64 e.1, chain])

/-- Chains have to be one item each. -/
def encode (k : EndpointKeys) : Shaped Octets := do
  let entries ← k.chains.toList.mapM entryItem
  pure (Cbor.write (.array [.array entries, .bytes k.challenge]))

def curveP256 : Int64 := 1

def curve25519 : Int64 := 2

/-- Chains that devices accept in tests. -/
def testChains : List (Int64 × String) := [
  (curve25519,
    "goRDoQEnoFgqpAEBAycgBiFYIJm57t1e5FL2hcZMYtw+YatXSH11NymtdoAy0rPLY1jZWEAeIghLpLekyNdOAw7+uK8UTKc7" ++
    "b6XN3Np5xitk/pk5r3bngPpmAIUNB5gqrJFcpyUUSQY0dcqKJ3rZ41pJ6wIDhEOhASegWE6lAQECWCDQrsEVyirPc65rzMvR" ++
    "lh1l6LHd10oaN7lDOpfVmd+YCAM4GCAEIVggvoXnRsSjQlpA2TY6phXQLFh+PdwzAjLS/F4ehyVfcmBYQJvPkOIuS6vRGLEO" ++
    "jl0gJ0uEWP78MpB+cgWDvNeCvvpkeC1UEEvAMb9r6B414vAtzmwvT/L1T6XUg62WovGHWAQ="),
  (curveP256,
    "goRDoQEmoFhNpQECAyYgASFYIPcUituX9MxT79JkEcTjdR9mH6RxDGzP+glGgHSHVPKtIlggXn9b9uzk9hnM/xM3/Q+hyJPb" ++
    "GAZ2xF3m12p3hsMtr49YQC+XjkL7vgctlUeFR5NAsB/Um0ekxESp8qEHhxDHn8sR9L+f6Dvg5zRMFfx7w34zBfTRNDztAgRg" ++
    "ehXgedOK/ySEQ6EBJqBYcaYBAgJYIDVztz+gioCJsSZn6ct8daGvAmH8bmUDkTvTS30UlD5GAzgYIAEhWCDgQc8vDzQPHDMs" ++
    "QbDP1wwwVTXSHmpHE0su0UiWfiScaCJYIB/ORcX7YbqBIfnlBZubOQ52hoZHuB4vRfHOr9o/gGjbWECMs7p+ID4ysGjfYNEd" ++
    "ffCsOI5RvP9s4Wc7Snm8Vnizmdh8igfY2rW1f3H02GvfMyc0e2XRKuuGmZirOrSAqr1Q")]

/-- Keys to try out a device with, without a server: the challenge is the time. -/
def forTests (time : Instant) : EndpointKeys where
  chains := .ofList (testChains.filterMap fun (curve, text) =>
    (Base64.decode? .standard text).map fun chain => (curve, chain))
  challenge := Octets.ofAscii time.stamp

end EndpointKeys

end AttestedKey
