import BicepMigration.Fingerprint.Blake3
import BicepMigration.Json.Printer

/-!
# Fingerprints

A text is identified by the BLAKE3 hash of its UTF-8 bytes, and a JSON value by the hash of its compact
text. Two documents that hold the same values have one fingerprint, whatever format they are written in.
-/

namespace BicepMigration.Fingerprint

/-- The fingerprint of a text. -/
def ofText (text : String) : String :=
  "blake3:" ++ Blake3.hashHex text.toUTF8.toList

/-- The fingerprint of a JSON value as it stands. -/
def ofJson (value : Json) : String := ofText value.compact

end BicepMigration.Fingerprint
