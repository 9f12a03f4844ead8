import EraPrecompiles.Yul.Word
import EraPrecompiles.Yul.Iteration
import EraPrecompiles.Yul.Memory
import EraPrecompiles.Yul.Limbs
import EraPrecompiles.Yul.Call
import EraPrecompiles.Yul.Caller
import EraPrecompiles.Arith.Bits
import EraPrecompiles.Arith.CubicAlgebra
import EraPrecompiles.Arith.Limbs
import EraPrecompiles.Arith.ShiftSubtract
import EraPrecompiles.Arith.Montgomery
import EraPrecompiles.Arith.BinaryEuclid
import EraPrecompiles.Arith.Pratt
import EraPrecompiles.Arith.Primes
import EraPrecompiles.Bn254.Montgomery
import EraPrecompiles.Curve.ShortWeierstrass
import EraPrecompiles.Curve.Homogeneous
import EraPrecompiles.Curve.Encoded
import EraPrecompiles.Curve.Jacobian
import EraPrecompiles.Curve.IncompleteLadder
import EraPrecompiles.Curve.Order
import EraPrecompiles.Curve.Counting
import EraPrecompiles.Curve.PrimeOrder
import EraPrecompiles.Curve.Scaling
import EraPrecompiles.Curve.Line
import EraPrecompiles.Curve.Miller
import EraPrecompiles.Bn254.G1
import EraPrecompiles.Bn254.G1Order
import EraPrecompiles.Bn254.Fp2
import EraPrecompiles.Bn254.Twist
import EraPrecompiles.Bn254.TwistLadder
import EraPrecompiles.Bn254.TwistOrder
import EraPrecompiles.Bn254.Tower
import EraPrecompiles.Bn254.TwistFrobenius
import EraPrecompiles.Ecdsa.Montgomery
import EraPrecompiles.Ecdsa.Shamir
import EraPrecompiles.Ecdsa.Verify
import EraPrecompiles.Ecdsa.Scheme
import EraPrecompiles.ModExp.Program
import EraPrecompiles.ModExp.Shortcuts
import EraPrecompiles.ModExp.OneLimb
import EraPrecompiles.ModExp.Subtraction
import EraPrecompiles.ModExp.Buffers
import EraPrecompiles.ModExp.Shift
import EraPrecompiles.ModExp.Multiplication
import EraPrecompiles.ModExp.Addition
import EraPrecompiles.ModExp.Decoding
import EraPrecompiles.ModExp.Sizes
import EraPrecompiles.ModExp.Remainder
import EraPrecompiles.ModExp.Exponentiation
import EraPrecompiles.ModExp.PowerLoop
import EraPrecompiles.ModExp.SafePower
import EraPrecompiles.ModExp.Fallback
import EraPrecompiles.Pairing.Subgroup
import EraPrecompiles.Pairing.Tower
import EraPrecompiles.Pairing.Frobenius
import EraPrecompiles.Pairing.Cyclotomic
import EraPrecompiles.Pairing.FinalExponentiation
import EraPrecompiles.Pairing.Untwist
import EraPrecompiles.Pairing.Lines
import EraPrecompiles.Pairing.OptimalAte
import EraPrecompiles.Pairing.Negation
import EraPrecompiles.Pairing.MillerLoop
import EraPrecompiles.Precompiles.Arithmetic
import EraPrecompiles.Precompiles.EcAdd
import EraPrecompiles.Precompiles.EcMul
import EraPrecompiles.Precompiles.PointCalls
import EraPrecompiles.Precompiles.EcAddG2
import EraPrecompiles.Precompiles.EcMulG2
import EraPrecompiles.Precompiles.EcPairing
import EraPrecompiles.Precompiles.PairingInputs
import EraPrecompiles.Precompiles.P256VERIFY
import EraPrecompiles.Precompiles.Secp256k1VERIFY
import EraPrecompiles.Precompiles.Signatures
import EraPrecompiles.Ecdsa.Orders
import EraPrecompiles.Scripts.Affine
import EraPrecompiles.Scripts.Ecdsa
import EraPrecompiles.Scripts.DoubleAndAdd
import EraPrecompiles.Scripts.Signing
import EraPrecompiles.Scripts.Verification
import EraPrecompiles.Scripts.SignatureInputs
import EraPrecompiles.Arith.RootsOfUnity
import EraPrecompiles.Plonk.Verification
import EraPrecompiles.Verifier.Layout
import EraPrecompiles.Verifier.Helpers
import EraPrecompiles.Verifier.Points
import EraPrecompiles.Verifier.Powers
import EraPrecompiles.Verifier.Lagrange
import EraPrecompiles.Verifier.State
import EraPrecompiles.Verifier.Verify
