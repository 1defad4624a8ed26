/-! The properties an authorization list can hold. A key description uses the number as a
context-specific tag, an entity attestation token as an offset below `tokenBase`. -/

namespace AttestedKey

inductive Tag
  | purpose
  | algorithm
  | keySize
  | digest
  | padding
  | ecCurve
  | rsaPublicExponent
  | mgfDigest
  | rollbackResistance
  | earlyBootOnly
  | activeDateTime
  | originationExpireDateTime
  | usageExpireDateTime
  | usageCountLimit
  | noAuthRequired
  | userAuthType
  | authTimeout
  | allowWhileOnBody
  | trustedUserPresenceRequired
  | trustedConfirmationRequired
  | unlockedDeviceRequired
  | allApplications
  | applicationId
  | creationDateTime
  | origin
  | rollbackResistant
  | rootOfTrust
  | osVersion
  | osPatchLevel
  | attestationApplicationId
  | attestationIdBrand
  | attestationIdDevice
  | attestationIdProduct
  | attestationIdSerial
  | attestationIdImei
  | attestationIdMeid
  | attestationIdManufacturer
  | attestationIdModel
  | vendorPatchLevel
  | bootPatchLevel
  | deviceUniqueAttestation
  | attestationIdSecondImei
  | moduleHash
  deriving DecidableEq, Repr

namespace Tag

def number : Tag → Nat
  | purpose => 1
  | algorithm => 2
  | keySize => 3
  | digest => 5
  | padding => 6
  | ecCurve => 10
  | rsaPublicExponent => 200
  | mgfDigest => 203
  | rollbackResistance => 303
  | earlyBootOnly => 305
  | activeDateTime => 400
  | originationExpireDateTime => 401
  | usageExpireDateTime => 402
  | usageCountLimit => 405
  | noAuthRequired => 503
  | userAuthType => 504
  | authTimeout => 505
  | allowWhileOnBody => 506
  | trustedUserPresenceRequired => 507
  | trustedConfirmationRequired => 508
  | unlockedDeviceRequired => 509
  | allApplications => 600
  | applicationId => 601
  | creationDateTime => 701
  | origin => 702
  | rollbackResistant => 703
  | rootOfTrust => 704
  | osVersion => 705
  | osPatchLevel => 706
  | attestationApplicationId => 709
  | attestationIdBrand => 710
  | attestationIdDevice => 711
  | attestationIdProduct => 712
  | attestationIdSerial => 713
  | attestationIdImei => 714
  | attestationIdMeid => 715
  | attestationIdManufacturer => 716
  | attestationIdModel => 717
  | vendorPatchLevel => 718
  | bootPatchLevel => 719
  | deviceUniqueAttestation => 720
  | attestationIdSecondImei => 723
  | moduleHash => 724

def label : Tag → String
  | purpose => "purpose"
  | algorithm => "algorithm"
  | keySize => "key-size"
  | digest => "digest"
  | padding => "padding"
  | ecCurve => "ec-curve"
  | rsaPublicExponent => "rsa-public-exponent"
  | mgfDigest => "rsa-oaep-mgf-digest"
  | rollbackResistance => "rollback-resistance"
  | earlyBootOnly => "early-boot-only"
  | activeDateTime => "active-date-time"
  | originationExpireDateTime => "origination-expire-date-time"
  | usageExpireDateTime => "usage-expire-date-time"
  | usageCountLimit => "usage-count-limit"
  | noAuthRequired => "no-auth-required"
  | userAuthType => "user-auth-type"
  | authTimeout => "auth-timeout"
  | allowWhileOnBody => "allow-while-on-body"
  | trustedUserPresenceRequired => "trusted-user-presence-required"
  | trustedConfirmationRequired => "trusted-confirmation-required"
  | unlockedDeviceRequired => "unlocked-device-required"
  | allApplications => "all-applications"
  | applicationId => "application-id"
  | creationDateTime => "creation-date-time"
  | origin => "origin"
  | rollbackResistant => "rollback-resistant"
  | rootOfTrust => "root-of-trust"
  | osVersion => "os-version"
  | osPatchLevel => "os-patch-level"
  | attestationApplicationId => "attestation-application-id"
  | attestationIdBrand => "attestation-id-brand"
  | attestationIdDevice => "attestation-id-device"
  | attestationIdProduct => "attestation-id-product"
  | attestationIdSerial => "attestation-id-serial"
  | attestationIdImei => "attestation-id-imei"
  | attestationIdMeid => "attestation-id-meid"
  | attestationIdManufacturer => "attestation-id-manufacturer"
  | attestationIdModel => "attestation-id-model"
  | vendorPatchLevel => "vendor-patch-level"
  | bootPatchLevel => "boot-patch-level"
  | deviceUniqueAttestation => "device-unique-attestation"
  | attestationIdSecondImei => "attestation-id-second-imei"
  | moduleHash => "module-hash"

def ofNumber? : Nat → Option Tag
  | 1 => some purpose
  | 2 => some algorithm
  | 3 => some keySize
  | 5 => some digest
  | 6 => some padding
  | 10 => some ecCurve
  | 200 => some rsaPublicExponent
  | 203 => some mgfDigest
  | 303 => some rollbackResistance
  | 305 => some earlyBootOnly
  | 400 => some activeDateTime
  | 401 => some originationExpireDateTime
  | 402 => some usageExpireDateTime
  | 405 => some usageCountLimit
  | 503 => some noAuthRequired
  | 504 => some userAuthType
  | 505 => some authTimeout
  | 506 => some allowWhileOnBody
  | 507 => some trustedUserPresenceRequired
  | 508 => some trustedConfirmationRequired
  | 509 => some unlockedDeviceRequired
  | 600 => some allApplications
  | 601 => some applicationId
  | 701 => some creationDateTime
  | 702 => some origin
  | 703 => some rollbackResistant
  | 704 => some rootOfTrust
  | 705 => some osVersion
  | 706 => some osPatchLevel
  | 709 => some attestationApplicationId
  | 710 => some attestationIdBrand
  | 711 => some attestationIdDevice
  | 712 => some attestationIdProduct
  | 713 => some attestationIdSerial
  | 714 => some attestationIdImei
  | 715 => some attestationIdMeid
  | 716 => some attestationIdManufacturer
  | 717 => some attestationIdModel
  | 718 => some vendorPatchLevel
  | 719 => some bootPatchLevel
  | 720 => some deviceUniqueAttestation
  | 723 => some attestationIdSecondImei
  | 724 => some moduleHash
  | _ => none

theorem ofNumber?_number (t : Tag) : ofNumber? t.number = some t := by cases t <;> rfl

theorem number_of_ofNumber? {n : Nat} {t : Tag} (h : ofNumber? n = some t) : t.number = n := by
  unfold ofNumber? at h
  split at h <;> first | (cases h; rfl) | cases h

def tokenBase : Int := -80000

def claim (t : Tag) : Int := tokenBase - t.number

def ofClaim? (key : Int) : Option Tag :=
  if key ≤ tokenBase then ofNumber? (tokenBase - key).toNat else none

theorem ofClaim?_claim (t : Tag) : ofClaim? t.claim = some t := by
  have hkey : (tokenBase - t.claim).toNat = t.number := by
    unfold claim
    omega
  have hbase : t.claim ≤ tokenBase := by
    unfold claim
    omega
  rw [ofClaim?, if_pos hbase, hkey, ofNumber?_number]

theorem claim_of_ofClaim? {key : Int} {t : Tag} (h : ofClaim? key = some t) : t.claim = key := by
  unfold ofClaim? at h
  split at h
  · have hn := number_of_ofNumber? h
    unfold claim
    omega
  · cases h

def text (t : Tag) : String := s!"{t.label} ({t.number})"

end Tag

end AttestedKey
