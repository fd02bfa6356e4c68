import StoreWarden.Os.Fault
import StoreWarden.Pem.Fault

/-!
# Unusable TLS material

Why certificates and keys could not be loaded, for a client and for a server.
-/

namespace StoreWarden.Tls

inductive Fault where
  /-- A file of the client could not be read. -/
  | unreadable (fault : Os.Fault)
  /-- A bundle held a block that does not decode. -/
  | bundleMalformed
  /-- A bundle held no certificate. -/
  | bundleEmpty
  /-- An identity file held a block that does not decode. -/
  | identityMalformed
  /-- An identity lacked its certificate or its key. -/
  | identityIncomplete
  /-- An identity held a block that is neither certificate nor key. -/
  | identityForeign
  /-- A file of the server could not be read. -/
  | servedUnreadable (path : String) (fault : Os.Fault)
  /-- The server's certificate file held a block that does not decode. -/
  | servedMalformed (fault : Pem.Fault)
  /-- The server's key file does not hold exactly one key. -/
  | servedKeyCount
  /-- The server's certificate file held no certificate. -/
  | servedNoCertificate
  /-- The server's key is of no known kind. -/
  | servedKeyUnusable
  /-- The server's key does not even have the outline of a key. -/
  | servedKeyFormat
  /-- The server's certificate is not one. -/
  | servedBadCertificate
  /-- The server's key belongs to another certificate. -/
  | servedKeyMismatch
  /-- A fault known by its text. -/
  | described (text : String)
deriving DecidableEq, Repr

def Fault.message : Fault → String
  | .unreadable fault => fault.message
  | .bundleMalformed => "builder error: invalid certificate encoding"
  | .bundleEmpty => "no PEM certificates found in bundle"
  | .identityMalformed => "builder error: unexpected error: Invalid identity PEM file"
  | .identityIncomplete =>
    "builder error: unexpected error: private key or certificate not found"
  | .identityForeign => "builder error: unexpected error: No valid certificate was found"
  | .servedUnreadable path fault =>
    "failed to read from file `" ++ path ++ "`: " ++ fault.message
  | .servedMalformed fault => fault.message
  | .servedKeyCount => "private key format not supported"
  | .servedNoCertificate => "peer sent no certificates"
  | .servedKeyUnusable =>
    "unexpected error: failed to parse private key as RSA, ECDSA, or EdDSA"
  | .servedKeyFormat => "unknown or invalid key format"
  | .servedBadCertificate => "invalid peer certificate: BadEncoding"
  | .servedKeyMismatch => "keys may not be consistent: KeyMismatch"
  | .described text => text

end StoreWarden.Tls
