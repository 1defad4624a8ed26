import AttestedKey.Json.Writer
import AttestedKey.Record.Attestation
import AttestedKey.Record.ProvisioningInfo

/-! Records as JSON. Octets are hexadecimal, instants RFC 3339, numbered levels and states names.
What is absent is null, except the security level of a list, which is left out. -/

namespace AttestedKey.Report

open Json

def number (n : Int64) : Json := .int n.toInt

def numbers (s : NumberSet) : Json := .array (s.toList.map number)

def instant (t : Instant) : Json := .text t.text

def securityLevel (l : SecurityLevel) : Json := .text l.name

def rootOfTrust (r : RootOfTrust) : Json := .object [
  ("verified_boot_key", hex r.verifiedBootKey),
  ("device_locked", .bool r.deviceLocked),
  ("verified_boot_state", .text r.verifiedBootState.name),
  ("verified_boot_hash", ofOption hex r.verifiedBootHash)]

def applicationId (a : ApplicationId) : Json := .object [
  ("package_infos", .array (a.packages.map fun p =>
    .object [("package_name", .text p.name), ("version", number p.version)])),
  ("signature_digests", .array (a.digests.map hex))]

def authorizationList (l : AuthorizationList) : Json := .object <|
  optionalMember "security_level" securityLevel l.securityLevel ++ [
  ("purposes", ofOption numbers l.purposes),
  ("algorithm", ofOption number l.algorithm),
  ("key_size", ofOption number l.keySize),
  ("digests", ofOption numbers l.digests),
  ("paddings", ofOption numbers l.paddings),
  ("ec_curve", ofOption number l.ecCurve),
  ("rsa_public_exponent", ofOption (fun n => .int n.toNat) l.rsaPublicExponent),
  ("mgf_digests", ofOption numbers l.mgfDigests),
  ("rollback_resistance", Json.bool l.rollbackResistance),
  ("early_boot_only", Json.bool l.earlyBootOnly),
  ("active_date_time", ofOption instant l.activeDateTime),
  ("origination_expire_date_time", ofOption instant l.originationExpireDateTime),
  ("usage_expire_date_time", ofOption instant l.usageExpireDateTime),
  ("usage_count_limit", ofOption number l.usageCountLimit),
  ("no_auth_required", Json.bool l.noAuthRequired),
  ("user_auth_type", ofOption number l.userAuthType),
  ("auth_timeout", ofOption number l.authTimeout),
  ("allow_while_on_body", Json.bool l.allowWhileOnBody),
  ("trusted_user_presence_required", Json.bool l.trustedUserPresenceRequired),
  ("trusted_confirmation_required", Json.bool l.trustedConfirmationRequired),
  ("unlocked_device_required", Json.bool l.unlockedDeviceRequired),
  ("all_applications", Json.bool l.allApplications),
  ("application_id", ofOption hex l.applicationId),
  ("creation_date_time", ofOption instant l.creationDateTime),
  ("origin", ofOption number l.origin),
  ("rollback_resistant", Json.bool l.rollbackResistant),
  ("root_of_trust", ofOption rootOfTrust l.rootOfTrust),
  ("os_version", ofOption number l.osVersion),
  ("os_patch_level", ofOption number l.osPatchLevel),
  ("attestation_application_id", ofOption applicationId l.attestationApplicationId),
  ("brand", ofOption .text l.brand),
  ("device", ofOption .text l.device),
  ("product", ofOption .text l.product),
  ("serial", ofOption .text l.serial),
  ("imei", ofOption .text l.imei),
  ("meid", ofOption .text l.meid),
  ("manufacturer", ofOption .text l.manufacturer),
  ("model", ofOption .text l.model),
  ("vendor_patch_level", ofOption number l.vendorPatchLevel),
  ("boot_patch_level", ofOption number l.bootPatchLevel),
  ("device_unique_attestation", Json.bool l.deviceUniqueAttestation),
  ("second_imei", ofOption .text l.secondImei),
  ("module_hash", ofOption hex l.moduleHash)]

def keyDescriptionMembers (d : KeyDescription) : List (String × Json) := [
  ("attestation_version", number d.attestationVersion),
  ("attestation_security_level", securityLevel d.attestationSecurityLevel),
  ("keymint_version", number d.keyMintVersion),
  ("keymint_security_level", securityLevel d.keyMintSecurityLevel),
  ("challenge", hex d.challenge),
  ("unique_id", ofOption hex d.uniqueId),
  ("software_enforced", authorizationList d.softwareEnforced),
  ("hardware_enforced", authorizationList d.hardwareEnforced)]

def keyDescription (d : KeyDescription) : Json := .object (keyDescriptionMembers d)

def entityTokenMembers (t : EntityToken) : List (String × Json) := [
  ("attestation_version", ofOption number t.attestationVersion),
  ("keymint_version", ofOption number t.keyMintVersion),
  ("keymint_security_level", securityLevel t.keyMintSecurityLevel),
  ("challenge", hex t.challenge),
  ("unique_id", ofOption hex t.uniqueId),
  ("software_enforced", authorizationList t.softwareEnforced),
  ("hardware_enforced", authorizationList t.hardwareEnforced),
  ("boot_state", ofOption (fun flags => .array (flags.map .bool)) t.bootState),
  ("official_build", .bool t.officialBuild),
  ("root_of_trust", ofOption rootOfTrust t.rootOfTrust)]

def knoxStatus : Knox.Status → Json
  | .normal => .text "Normal"
  | .abnormal => .text "Abnormal"
  | .notSupported => .text "NotSupported"
  | .other n => .object [("Other", number n)]

def callerAuthentication (a : Knox.CallerAuthentication) : Json := .object [
  ("caller_auth_result", knoxStatus a.callerResult),
  ("calling_package", ofOption .text a.callingPackage),
  ("calling_package_signatures", ofOption .text a.callingPackageSignatures),
  ("calling_package_auth_result", knoxStatus a.callingPackageResult)]

def integrity (i : Knox.Integrity) : Json := .object [
  ("trust_boot", knoxStatus i.trustBoot),
  ("warranty", knoxStatus i.warranty),
  ("icd", knoxStatus i.icd),
  ("kernel", knoxStatus i.kernel),
  ("system", knoxStatus i.system),
  ("auth_result", ofOption callerAuthentication i.authentication)]

def knoxMembers (r : KnoxRecord) : List (String × Json) := [
  ("key_description", keyDescription r.keyDescription),
  ("challenge", ofOption .text r.addition.challenge),
  ("id_attest", ofOption .text r.addition.idAttestation),
  ("integrity", ofOption integrity r.addition.integrity),
  ("record_hash", ofOption hex r.addition.recordHash)]

/-- The format stands beside the members of the record. -/
def attestation : Attestation → Json
  | .standard d => .object (("format", .text "standard") :: keyDescriptionMembers d)
  | .token t => .object (("format", .text "eat") :: entityTokenMembers t)
  | .knox r => .object (("format", .text "vendor") :: knoxMembers r)

def provisioningInfo (p : ProvisioningInfo) : Json := .object [
  ("certs_issued", ofOption number p.certsIssued),
  ("manufacturer", ofOption .text p.manufacturer)]

end AttestedKey.Report
