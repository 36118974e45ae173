import CommandBatch.Digest.Sha256
import CommandBatch.Files.Path
import CommandBatch.Text.Quoted
import CommandBatch.Text.WordChar

/-!
# Names of modules

Two extension files may have the same name, so a module goes by the name of its file with a digest
of its whole path.
-/

namespace CommandBatch.Extension

open Files Text

/-- A name with an underscore for every character that is neither a letter nor a numeral. -/
def wordName (name : String) : String :=
  .ofList (name.toList.map fun c => if isWordChar c then c else '_')

/-- The first twelve hexadecimal digits of the digest of a text. -/
def shortDigest (text : String) : String :=
  let digits := (Digest.sha256 text.toUTF8.toList).flatMap fun w => hexDigits 8 w.toNat
  .ofList (digits.take 12)

/-- The name of the module at a path that is seen from a working directory. -/
def moduleName (directory path : String) : String :=
  "commander_ext_" ++ wordName (Path.baseName path) ++ "_" ++
    shortDigest (Path.absolute directory path)

end CommandBatch.Extension
