import ImportAudit.Text.Quoted
import ImportAudit.Text.Utf8

/-! Why a YAML document yields no value. -/
namespace ImportAudit.Yaml

/-- The first three lie in the text, the next four in the shape of the document, the others in the
value of a node. -/
inductive Fault
  | undecodable (fault : Text.Utf8.Fault)
  | unreadable
  | lexical
  | grammar
  | reference
  | tooDeep
  | construction
  | badCodePoint
  | codePointOverflow
  | byteEscape
  | badInt (base : Nat) (text : Codes)
  | badFloat (text : Codes)
  | tooManyDigits (count : Option Nat)
  | placeOverflow
  | emptyNumber
  | badTruth
  | badMoment (reason : String)
  | notMoment
  | momentOfMapping
deriving DecidableEq, Repr

namespace Fault

/-- Decimal numbers of more digits are neither read nor written. -/
def digitLimit : Nat := 4300

def message : Fault → String
  | undecodable fault => fault.message
  | unreadable => "a character that may not occur in a document"
  | lexical => "a stretch of text that is no token"
  | grammar => "a token that does not fit here"
  | reference => "an alias or a document that is not expected"
  | tooDeep => "collections that are nested too deeply"
  | construction => "a node that has no value"
  | badCodePoint => "chr() arg not in range(0x110000)"
  | codePointOverflow => "a code point that is no machine number"
  | byteEscape => "a code point that stands for a byte"
  | badInt base text =>
      "invalid literal for int() with base " ++ toString base ++ ": " ++
        String.ofList ((Text.Quoted.render text).toList.take 200)
  | badFloat text => "could not convert string to float: " ++ Text.Quoted.render text
  | tooManyDigits count =>
      "Exceeds the limit (" ++ toString digitLimit ++ " digits) for integer string conversion" ++
        (count.map fun count => ": value has " ++ toString count ++ " digits").getD "" ++
        "; use sys.set_int_max_str_digits() to increase the limit"
  | placeOverflow => "a place to base sixty that is too high for a number with a fraction"
  | emptyNumber => "a number without a digit"
  | badTruth => "a truth value that is neither true nor false"
  | badMoment reason => reason
  | notMoment => "a time that is not written as one"
  | momentOfMapping => "a mapping in place of a time"

end Fault
end ImportAudit.Yaml
