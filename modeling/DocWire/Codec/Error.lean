import DocWire.Bytes.Utf8
import DocWire.Datum.Kind
import DocWire.Document.Display
import DocWire.Element.Tag

namespace DocWire

-- How deep documents and arrays may lie inside each other, the outermost included.
def maxNesting : Nat := 100

-- Why a field name is refused. A zero byte cannot be written at all; a name with a dollar sign in
-- front or a dot inside can be written but not stored.
inductive NameFault where
  | zeroByte
  | leadingDollar
  | dot
deriving DecidableEq

def NameFault.message : NameFault → String
  | .zeroByte => "field names cannot contain NUL bytes"
  | .leadingDollar => "stored field names cannot start with '$'"
  | .dot => "stored field names cannot contain '.'"

-- What a codec asks of a datum that it takes apart.
inductive Children where
  | entries
  | elements
  | arrayElements
deriving DecidableEq

def Children.message : Children → String
  | .entries => "key-value entries"
  | .elements => "elements"
  | .arrayElements => "array elements"

inductive DocumentFault where
  | tooDeep
  | tooLong (length : Nat)
  | noChildren (kind : Kind) (children : Children)
  | notDocument (value : Value)
  | other (reason : String)

def DocumentFault.message (naming : Kind → String) : DocumentFault → String
  | .tooDeep => "documents nest deeper than " ++ toString maxNesting ++ " levels"
  | .tooLong length => "length " ++ toString length ++ " does not fit a 32-bit prefix"
  | .noChildren kind children => "'" ++ naming kind ++ "' does not expose " ++ children.message
  | .notDocument value => "document codec produced " ++ value.render
  | .other reason => reason

-- Calls that no document allows at the place where they were made.
inductive Misuse where
  | outsideDocument
  | missingName
  | unopenedEnd
deriving DecidableEq

def Misuse.message : Misuse → String
  | .outsideDocument => "values must be written inside a document"
  | .missingName => "element written without a field name"
  | .unopenedEnd => "end of a document or array that was never started"

-- Bytes that no document can have.
inductive Corruption where
  | stringLength (length : Int32)
  | unterminatedString
  | stringText (fault : Utf8.Fault)
  | binaryLength (length : Int32)
  | boolean (byte : UInt8)
  | notNull (found : Option Tag)
  | tooDeep (offset : Nat)
  | documentSize (size : Int32) (offset : Nat)
  | wrongEnd (position declared : Nat)
  | overrun (length offset : Nat)
  | unterminatedName
  | nameText (fault : Utf8.Fault)
deriving DecidableEq

def Corruption.message : Corruption → String
  | .stringLength length => "invalid string length " ++ toString length
  | .unterminatedString => "string is not NUL terminated"
  | .stringText fault => "string is not valid UTF-8: " ++ fault.message
  | .binaryLength length => "invalid binary length " ++ toString length
  | .boolean byte => "invalid boolean byte 0x" ++ Text.hexByte byte
  | .notNull found =>
    "expected null element, found " ++ (match found with
      | some tag => "Some(" ++ tag.name ++ ")"
      | none => "None")
  | .tooDeep offset =>
    "documents nest deeper than " ++ toString maxNesting ++ " levels at offset " ++ toString offset
  | .documentSize size offset =>
    "invalid document size " ++ toString size ++ " at offset " ++ toString offset
  | .wrongEnd position declared =>
    "document ended at " ++ toString position ++ " but declared end " ++ toString declared
  | .overrun length offset =>
    "read of " ++ toString length ++ " bytes at offset " ++ toString offset ++
      " overruns its document"
  | .unterminatedName => "unterminated field name"
  | .nameText fault => "field name is not valid UTF-8: " ++ fault.message

-- Everything that can go wrong between values and their bytes. `truncated` is a word of which
-- that many bytes are missing, and `endless` a codec that hands its work back to itself.
inductive CodecError where
  | unresolved (kind : Kind)
  | typeMismatch (expected actual : Kind)
  | invalidName (name : String) (fault : NameFault)
  | invalidDocument (fault : DocumentFault)
  | misuse (fault : Misuse)
  | corrupt (fault : Corruption)
  | unknownTag (code : UInt8)
  | truncated (missing : Nat)
  | endless

-- The text of an error, given the names under which types are known.
def CodecError.message (naming : Kind → String) : CodecError → String
  | .unresolved kind => "no codec can be resolved for type '" ++ naming kind ++ "'"
  | .typeMismatch expected actual =>
    "codec for '" ++ naming expected ++ "' was handed a '" ++ naming actual ++ "'"
  | .invalidName name fault => "invalid field name '" ++ name ++ "': " ++ fault.message
  | .invalidDocument fault => "invalid document: " ++ fault.message naming
  | .misuse fault => "writer misuse: " ++ fault.message
  | .corrupt fault => "corrupt document: " ++ fault.message
  | .unknownTag code => "unknown element type 0x" ++ Text.hexByte code
  | .truncated missing =>
    "failed to decode primitive: UnexpectedEnd \x7b additional: " ++ toString missing ++ " \x7d"
  | .endless => "a codec hands decoding back to itself without reading"

end DocWire
