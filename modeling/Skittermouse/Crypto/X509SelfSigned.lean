import Skittermouse.Core.Config

namespace Skittermouse.Crypto

open Skittermouse.Data Skittermouse.Core

def ByteVector : Type := { bytes : Bytes // bytes.length < 2 ^ 63 }

/-- The bytes that the loop of `putLen` puts into `tmp`, for which there is room. -/
def lowBytes : Nat → UInt64 → Bytes
  | 0, _ => []
  | room + 1, n => if n = 0 then [] else (n &&& 0xFF).toUInt8 :: lowBytes room (n >>> 8)

def putLen (out : Bytes) (n : UInt64) : Bytes :=
  if n < 0x80 then out ++ [n.toUInt8]
  else
    let tmp := lowBytes 8 n
    out ++ (0x80 ||| UInt8.ofNat tmp.length) :: tmp.reverse

def tlv (tag : UInt8) (content : Bytes) : Bytes :=
  putLen [tag] (UInt64.ofNat content.length) ++ content

def oid (bytes : Bytes) : Bytes := tlv 0x06 bytes

def concat (parts : List Bytes) : Bytes := parts.foldl (· ++ ·) []

/-- Leading zeros go, but one byte stays. -/
def stripZeros : Bytes → Bytes
  | first :: second :: rest =>
      if first = 0 then stripZeros (second :: rest) else first :: second :: rest
  | bytes => bytes

def integerFromBE (be : Bytes) : Bytes :=
  let stripped := stripZeros be
  let magnitude := if stripped = [] then [0] else stripped
  let v := if magnitude.headD 0 &&& 0x80 ≠ 0 then 0 :: magnitude else magnitude
  tlv 0x02 v

/-- `strftime` is the platform's. -/
def utcTime (strftime : Int64 → Bytes) (epoch : Int64) : Bytes := tlv 0x17 (strftime epoch)

def ecdsaSha256 : Bytes := tlv 0x30 (oid [0x2A, 0x86, 0x48, 0xCE, 0x3D, 0x04, 0x03, 0x02])

def version : Bytes := tlv 0xA0 (tlv 0x02 [0x02])

def serial : Bytes := integerFromBE [0x01]

def name : Bytes :=
  let cnValue := textOf "Skittermouse"
  let rdn := tlv 0x30 (concat [oid [0x55, 0x04, 0x03], tlv 0x0C cnValue])
  tlv 0x30 (tlv 0x31 rdn)

def ecAlg : Bytes :=
  tlv 0x30 (concat [oid [0x2A, 0x86, 0x48, 0xCE, 0x3D, 0x02, 0x01],
    oid [0x2A, 0x86, 0x48, 0xCE, 0x3D, 0x03, 0x01, 0x07]])

def tbsCertificate (strftime : Int64 → Bytes) (publicPoint : Bytes) (notBefore notAfter : Int64) :
    Bytes :=
  let validity := tlv 0x30 (concat [utcTime strftime notBefore, utcTime strftime notAfter])
  let pkBits := 0x00 :: publicPoint
  let spki := tlv 0x30 (concat [ecAlg, tlv 0x03 pkBits])
  tlv 0x30 (concat [version, serial, ecdsaSha256, name, validity, name, spki])

/-- The certificate, empty on bad input, and the strings that `sign` was called with. -/
def buildSelfSignedP256Cert (strftime : Int64 → Bytes) (publicPoint : Bytes)
    (sign : Option (Bytes → ByteVector)) (notBefore notAfter : Int64) : Bytes × List Bytes :=
  match sign with
  | none => ([], [])
  | some sign =>
      if publicPoint.length ≠ 65 ∨ publicPoint.head? ≠ some 0x04 then ([], [])
      else
        let tbs := tbsCertificate strftime publicPoint notBefore notAfter
        let sig := (sign tbs).val
        if sig = [] then ([], [tbs])
        else
          let sigBits := 0x00 :: sig
          (tlv 0x30 (concat [tbs, ecdsaSha256, tlv 0x03 sigBits]), [tbs])

end Skittermouse.Crypto
