import EraPrecompiles.Yul.Word

/-!
# The memory of the verifier

The contract `Verifier.sol` of the integration tests keeps all its data at fixed places of its
memory: the verification key, the proof, the transcript, and what it computes.  The places below
`0x200` are left for the data of its calls.
-/

namespace EraPrecompiles.Verifier

/-! ## The verification key -/

def VK_GATE_SETUP_0_X_SLOT : Word := 0x200 + 0x000

def VK_GATE_SETUP_0_Y_SLOT : Word := 0x200 + 0x020

def VK_GATE_SETUP_1_X_SLOT : Word := 0x200 + 0x040

def VK_GATE_SETUP_1_Y_SLOT : Word := 0x200 + 0x060

def VK_GATE_SETUP_2_X_SLOT : Word := 0x200 + 0x080

def VK_GATE_SETUP_2_Y_SLOT : Word := 0x200 + 0x0a0

def VK_GATE_SETUP_3_X_SLOT : Word := 0x200 + 0x0c0

def VK_GATE_SETUP_3_Y_SLOT : Word := 0x200 + 0x0e0

def VK_GATE_SETUP_4_X_SLOT : Word := 0x200 + 0x100

def VK_GATE_SETUP_4_Y_SLOT : Word := 0x200 + 0x120

def VK_GATE_SETUP_5_X_SLOT : Word := 0x200 + 0x140

def VK_GATE_SETUP_5_Y_SLOT : Word := 0x200 + 0x160

def VK_GATE_SETUP_6_X_SLOT : Word := 0x200 + 0x180

def VK_GATE_SETUP_6_Y_SLOT : Word := 0x200 + 0x1a0

def VK_GATE_SETUP_7_X_SLOT : Word := 0x200 + 0x1c0

def VK_GATE_SETUP_7_Y_SLOT : Word := 0x200 + 0x1e0

def VK_GATE_SELECTORS_0_X_SLOT : Word := 0x200 + 0x200

def VK_GATE_SELECTORS_0_Y_SLOT : Word := 0x200 + 0x220

def VK_GATE_SELECTORS_1_X_SLOT : Word := 0x200 + 0x240

def VK_GATE_SELECTORS_1_Y_SLOT : Word := 0x200 + 0x260

def VK_PERMUTATION_0_X_SLOT : Word := 0x200 + 0x280

def VK_PERMUTATION_0_Y_SLOT : Word := 0x200 + 0x2a0

def VK_PERMUTATION_1_X_SLOT : Word := 0x200 + 0x2c0

def VK_PERMUTATION_1_Y_SLOT : Word := 0x200 + 0x2e0

def VK_PERMUTATION_2_X_SLOT : Word := 0x200 + 0x300

def VK_PERMUTATION_2_Y_SLOT : Word := 0x200 + 0x320

def VK_PERMUTATION_3_X_SLOT : Word := 0x200 + 0x340

def VK_PERMUTATION_3_Y_SLOT : Word := 0x200 + 0x360

def VK_LOOKUP_SELECTOR_X_SLOT : Word := 0x200 + 0x380

def VK_LOOKUP_SELECTOR_Y_SLOT : Word := 0x200 + 0x3a0

def VK_LOOKUP_TABLE_0_X_SLOT : Word := 0x200 + 0x3c0

def VK_LOOKUP_TABLE_0_Y_SLOT : Word := 0x200 + 0x3e0

def VK_LOOKUP_TABLE_1_X_SLOT : Word := 0x200 + 0x400

def VK_LOOKUP_TABLE_1_Y_SLOT : Word := 0x200 + 0x420

def VK_LOOKUP_TABLE_2_X_SLOT : Word := 0x200 + 0x440

def VK_LOOKUP_TABLE_2_Y_SLOT : Word := 0x200 + 0x460

def VK_LOOKUP_TABLE_3_X_SLOT : Word := 0x200 + 0x480

def VK_LOOKUP_TABLE_3_Y_SLOT : Word := 0x200 + 0x4a0

def VK_LOOKUP_TABLE_TYPE_X_SLOT : Word := 0x200 + 0x4c0

def VK_LOOKUP_TABLE_TYPE_Y_SLOT : Word := 0x200 + 0x4e0

def VK_RECURSIVE_FLAG_SLOT : Word := 0x200 + 0x500

/-! ## The proof -/

def PROOF_PUBLIC_INPUT : Word := 0x200 + 0x520 + 0x000

def PROOF_STATE_POLYS_0_X_SLOT : Word := 0x200 + 0x520 + 0x020

def PROOF_STATE_POLYS_0_Y_SLOT : Word := 0x200 + 0x520 + 0x040

def PROOF_STATE_POLYS_1_X_SLOT : Word := 0x200 + 0x520 + 0x060

def PROOF_STATE_POLYS_1_Y_SLOT : Word := 0x200 + 0x520 + 0x080

def PROOF_STATE_POLYS_2_X_SLOT : Word := 0x200 + 0x520 + 0x0a0

def PROOF_STATE_POLYS_2_Y_SLOT : Word := 0x200 + 0x520 + 0x0c0

def PROOF_STATE_POLYS_3_X_SLOT : Word := 0x200 + 0x520 + 0x0e0

def PROOF_STATE_POLYS_3_Y_SLOT : Word := 0x200 + 0x520 + 0x100

def PROOF_COPY_PERMUTATION_GRAND_PRODUCT_X_SLOT : Word := 0x200 + 0x520 + 0x120

def PROOF_COPY_PERMUTATION_GRAND_PRODUCT_Y_SLOT : Word := 0x200 + 0x520 + 0x140

def PROOF_LOOKUP_S_POLY_X_SLOT : Word := 0x200 + 0x520 + 0x160

def PROOF_LOOKUP_S_POLY_Y_SLOT : Word := 0x200 + 0x520 + 0x180

def PROOF_LOOKUP_GRAND_PRODUCT_X_SLOT : Word := 0x200 + 0x520 + 0x1a0

def PROOF_LOOKUP_GRAND_PRODUCT_Y_SLOT : Word := 0x200 + 0x520 + 0x1c0

def PROOF_QUOTIENT_POLY_PARTS_0_X_SLOT : Word := 0x200 + 0x520 + 0x1e0

def PROOF_QUOTIENT_POLY_PARTS_0_Y_SLOT : Word := 0x200 + 0x520 + 0x200

def PROOF_QUOTIENT_POLY_PARTS_1_X_SLOT : Word := 0x200 + 0x520 + 0x220

def PROOF_QUOTIENT_POLY_PARTS_1_Y_SLOT : Word := 0x200 + 0x520 + 0x240

def PROOF_QUOTIENT_POLY_PARTS_2_X_SLOT : Word := 0x200 + 0x520 + 0x260

def PROOF_QUOTIENT_POLY_PARTS_2_Y_SLOT : Word := 0x200 + 0x520 + 0x280

def PROOF_QUOTIENT_POLY_PARTS_3_X_SLOT : Word := 0x200 + 0x520 + 0x2a0

def PROOF_QUOTIENT_POLY_PARTS_3_Y_SLOT : Word := 0x200 + 0x520 + 0x2c0

def PROOF_STATE_POLYS_0_OPENING_AT_Z_SLOT : Word := 0x200 + 0x520 + 0x2e0

def PROOF_STATE_POLYS_1_OPENING_AT_Z_SLOT : Word := 0x200 + 0x520 + 0x300

def PROOF_STATE_POLYS_2_OPENING_AT_Z_SLOT : Word := 0x200 + 0x520 + 0x320

def PROOF_STATE_POLYS_3_OPENING_AT_Z_SLOT : Word := 0x200 + 0x520 + 0x340

def PROOF_STATE_POLYS_3_OPENING_AT_Z_OMEGA_SLOT : Word := 0x200 + 0x520 + 0x360

def PROOF_GATE_SELECTORS_0_OPENING_AT_Z_SLOT : Word := 0x200 + 0x520 + 0x380

def PROOF_COPY_PERMUTATION_POLYS_0_OPENING_AT_Z_SLOT : Word := 0x200 + 0x520 + 0x3a0

def PROOF_COPY_PERMUTATION_POLYS_1_OPENING_AT_Z_SLOT : Word := 0x200 + 0x520 + 0x3c0

def PROOF_COPY_PERMUTATION_POLYS_2_OPENING_AT_Z_SLOT : Word := 0x200 + 0x520 + 0x3e0

def PROOF_COPY_PERMUTATION_GRAND_PRODUCT_OPENING_AT_Z_OMEGA_SLOT : Word := 0x200 + 0x520 + 0x400

def PROOF_LOOKUP_S_POLY_OPENING_AT_Z_OMEGA_SLOT : Word := 0x200 + 0x520 + 0x420

def PROOF_LOOKUP_GRAND_PRODUCT_OPENING_AT_Z_OMEGA_SLOT : Word := 0x200 + 0x520 + 0x440

def PROOF_LOOKUP_T_POLY_OPENING_AT_Z_SLOT : Word := 0x200 + 0x520 + 0x460

def PROOF_LOOKUP_T_POLY_OPENING_AT_Z_OMEGA_SLOT : Word := 0x200 + 0x520 + 0x480

def PROOF_LOOKUP_SELECTOR_POLY_OPENING_AT_Z_SLOT : Word := 0x200 + 0x520 + 0x4a0

def PROOF_LOOKUP_TABLE_TYPE_POLY_OPENING_AT_Z_SLOT : Word := 0x200 + 0x520 + 0x4c0

def PROOF_QUOTIENT_POLY_OPENING_AT_Z_SLOT : Word := 0x200 + 0x520 + 0x4e0

def PROOF_LINEARISATION_POLY_OPENING_AT_Z_SLOT : Word := 0x200 + 0x520 + 0x500

def PROOF_OPENING_PROOF_AT_Z_X_SLOT : Word := 0x200 + 0x520 + 0x520

def PROOF_OPENING_PROOF_AT_Z_Y_SLOT : Word := 0x200 + 0x520 + 0x540

def PROOF_OPENING_PROOF_AT_Z_OMEGA_X_SLOT : Word := 0x200 + 0x520 + 0x560

def PROOF_OPENING_PROOF_AT_Z_OMEGA_Y_SLOT : Word := 0x200 + 0x520 + 0x580

def PROOF_RECURSIVE_PART_P1_X_SLOT : Word := 0x200 + 0x520 + 0x5a0

def PROOF_RECURSIVE_PART_P1_Y_SLOT : Word := 0x200 + 0x520 + 0x5c0

def PROOF_RECURSIVE_PART_P2_X_SLOT : Word := 0x200 + 0x520 + 0x5e0

def PROOF_RECURSIVE_PART_P2_Y_SLOT : Word := 0x200 + 0x520 + 0x600

/-! ## The transcript -/

def TRANSCRIPT_BEGIN_SLOT : Word := 0x200 + 0x520 + 0x620 + 0x00

def TRANSCRIPT_DST_BYTE_SLOT : Word := 0x200 + 0x520 + 0x620 + 0x03

def TRANSCRIPT_STATE_0_SLOT : Word := 0x200 + 0x520 + 0x620 + 0x04

def TRANSCRIPT_STATE_1_SLOT : Word := 0x200 + 0x520 + 0x620 + 0x24

def TRANSCRIPT_CHALLENGE_SLOT : Word := 0x200 + 0x520 + 0x620 + 0x44

/-! ## The state -/

def STATE_ALPHA_SLOT : Word := 0x200 + 0x520 + 0x620 + 0x80 + 0x000

def STATE_BETA_SLOT : Word := 0x200 + 0x520 + 0x620 + 0x80 + 0x020

def STATE_GAMMA_SLOT : Word := 0x200 + 0x520 + 0x620 + 0x80 + 0x040

def STATE_POWER_OF_ALPHA_2_SLOT : Word := 0x200 + 0x520 + 0x620 + 0x80 + 0x060

def STATE_POWER_OF_ALPHA_3_SLOT : Word := 0x200 + 0x520 + 0x620 + 0x80 + 0x080

def STATE_POWER_OF_ALPHA_4_SLOT : Word := 0x200 + 0x520 + 0x620 + 0x80 + 0x0a0

def STATE_POWER_OF_ALPHA_5_SLOT : Word := 0x200 + 0x520 + 0x620 + 0x80 + 0x0c0

def STATE_POWER_OF_ALPHA_6_SLOT : Word := 0x200 + 0x520 + 0x620 + 0x80 + 0x0e0

def STATE_POWER_OF_ALPHA_7_SLOT : Word := 0x200 + 0x520 + 0x620 + 0x80 + 0x100

def STATE_POWER_OF_ALPHA_8_SLOT : Word := 0x200 + 0x520 + 0x620 + 0x80 + 0x120

def STATE_ETA_SLOT : Word := 0x200 + 0x520 + 0x620 + 0x80 + 0x140

def STATE_BETA_LOOKUP_SLOT : Word := 0x200 + 0x520 + 0x620 + 0x80 + 0x160

def STATE_GAMMA_LOOKUP_SLOT : Word := 0x200 + 0x520 + 0x620 + 0x80 + 0x180

def STATE_BETA_PLUS_ONE_SLOT : Word := 0x200 + 0x520 + 0x620 + 0x80 + 0x1a0

def STATE_BETA_GAMMA_PLUS_GAMMA_SLOT : Word := 0x200 + 0x520 + 0x620 + 0x80 + 0x1c0

def STATE_V_SLOT : Word := 0x200 + 0x520 + 0x620 + 0x80 + 0x1e0

def STATE_U_SLOT : Word := 0x200 + 0x520 + 0x620 + 0x80 + 0x200

def STATE_Z_SLOT : Word := 0x200 + 0x520 + 0x620 + 0x80 + 0x220

def STATE_Z_MINUS_LAST_OMEGA_SLOT : Word := 0x200 + 0x520 + 0x620 + 0x80 + 0x240

def STATE_L_0_AT_Z_SLOT : Word := 0x200 + 0x520 + 0x620 + 0x80 + 0x260

def STATE_L_N_MINUS_ONE_AT_Z_SLOT : Word := 0x200 + 0x520 + 0x620 + 0x80 + 0x280

def STATE_Z_IN_DOMAIN_SIZE : Word := 0x200 + 0x520 + 0x620 + 0x80 + 0x2a0

/-! ## Queries -/

def QUERIES_BUFFER_POINT_SLOT : Word := 0x200 + 0x520 + 0x620 + 0x80 + 0x2c0 + 0x00

def QUERIES_AT_Z_0_X_SLOT : Word := 0x200 + 0x520 + 0x620 + 0x80 + 0x2c0 + 0x40

def QUERIES_AT_Z_0_Y_SLOT : Word := 0x200 + 0x520 + 0x620 + 0x80 + 0x2c0 + 0x60

def QUERIES_AT_Z_1_X_SLOT : Word := 0x200 + 0x520 + 0x620 + 0x80 + 0x2c0 + 0x80

def QUERIES_AT_Z_1_Y_SLOT : Word := 0x200 + 0x520 + 0x620 + 0x80 + 0x2c0 + 0xa0

def QUERIES_T_POLY_AGGREGATED_X_SLOT : Word := 0x200 + 0x520 + 0x620 + 0x80 + 0x2c0 + 0xc0

def QUERIES_T_POLY_AGGREGATED_Y_SLOT : Word := 0x200 + 0x520 + 0x620 + 0x80 + 0x2c0 + 0xe0

/-! ## The aggregated commitment -/

def AGGREGATED_AT_Z_X_SLOT : Word := 0x200 + 0x520 + 0x620 + 0x80 + 0x2c0 + 0x100 + 0x00

def AGGREGATED_AT_Z_Y_SLOT : Word := 0x200 + 0x520 + 0x620 + 0x80 + 0x2c0 + 0x100 + 0x20

def AGGREGATED_AT_Z_OMEGA_X_SLOT : Word := 0x200 + 0x520 + 0x620 + 0x80 + 0x2c0 + 0x100 + 0x40

def AGGREGATED_AT_Z_OMEGA_Y_SLOT : Word := 0x200 + 0x520 + 0x620 + 0x80 + 0x2c0 + 0x100 + 0x60

def AGGREGATED_OPENING_AT_Z_SLOT : Word := 0x200 + 0x520 + 0x620 + 0x80 + 0x2c0 + 0x100 + 0x80

def AGGREGATED_OPENING_AT_Z_OMEGA_SLOT : Word := 0x200 + 0x520 + 0x620 + 0x80 + 0x2c0 + 0x100 + 0xa0

/-! ## Data of the pairing -/

def PAIRING_BUFFER_POINT_X_SLOT : Word := 0x200 + 0x520 + 0x620 + 0x80 + 0x2c0 + 0x100 + 0xc0 + 0x00

def PAIRING_BUFFER_POINT_Y_SLOT : Word := 0x200 + 0x520 + 0x620 + 0x80 + 0x2c0 + 0x100 + 0xc0 + 0x20

def PAIRING_PAIR_WITH_GENERATOR_X_SLOT : Word :=
  0x200 + 0x520 + 0x620 + 0x80 + 0x2c0 + 0x100 + 0xc0 + 0x40

def PAIRING_PAIR_WITH_GENERATOR_Y_SLOT : Word :=
  0x200 + 0x520 + 0x620 + 0x80 + 0x2c0 + 0x100 + 0xc0 + 0x60

def PAIRING_PAIR_WITH_X_X_SLOT : Word := 0x200 + 0x520 + 0x620 + 0x80 + 0x2c0 + 0x100 + 0x100 + 0x80

def PAIRING_PAIR_WITH_X_Y_SLOT : Word := 0x200 + 0x520 + 0x620 + 0x80 + 0x2c0 + 0x100 + 0x100 + 0xa0

/-! ## Coefficients of the aggregated commitment -/

def COPY_PERMUTATION_FIRST_AGGREGATED_COMMITMENT_COEFF : Word :=
  0x200 + 0x520 + 0x620 + 0x80 + 0x2c0 + 0x100 + 0x100 + 0xc0

def LOOKUP_GRAND_PRODUCT_FIRST_AGGREGATED_COMMITMENT_COEFF : Word :=
  0x200 + 0x520 + 0x620 + 0x80 + 0x2c0 + 0x100 + 0x100 + 0xe0

def LOOKUP_S_FIRST_AGGREGATED_COMMITMENT_COEFF : Word :=
  0x200 + 0x520 + 0x620 + 0x80 + 0x2c0 + 0x100 + 0x100 + 0x100

/-! ## Constants -/

def OMEGA : Word := 0x1951441010b2b95a6e47a6075066a50a036f5ba978c050f2821df86636c0facb

def DOMAIN_SIZE : Word := 0x1000000

def Q_MOD : Word := 21888242871839275222246405745257275088696311157297823662689037894645226208583

def R_MOD : Word := 21888242871839275222246405745257275088548364400416034343698204186575808495617

def FR_MASK : Word := 0x1fffffffffffffffffffffffffffffffffffffffffffffffffffffffffffffff

def NON_RESIDUES_0 : Word := 0x05

def NON_RESIDUES_1 : Word := 0x07

def NON_RESIDUES_2 : Word := 0x0a

def G2_ELEMENTS_0_X1 : Word := 0x198e9393920d483a7260bfb731fb5d25f1aa493335a9e71297e485b7aef312c2

def G2_ELEMENTS_0_X2 : Word := 0x1800deef121f1e76426a00665e5c4479674322d4f75edadd46debd5cd992f6ed

def G2_ELEMENTS_0_Y1 : Word := 0x090689d0585ff075ec9e99ad690c3395bc4b313370b38ef355acdadcd122975b

def G2_ELEMENTS_0_Y2 : Word := 0x12c85ea5db8c6deb4aab71808dcb408fe3d1e7690c43d37b4ce6cc0166fa7daa

def G2_ELEMENTS_1_X1 : Word := 0x260e01b251f6f1c7e7ff4e580791dee8ea51d87a358e038b4efe30fac09383c1

def G2_ELEMENTS_1_X2 : Word := 0x0118c4d5b837bcc2bc89b5b398b5974e9f5944073b32078b7e231fec938883b0

def G2_ELEMENTS_1_Y1 : Word := 0x04fc6369f7110fe3d25156c1bb9a72859cf2a04641f99ba4ee413c80da6a5fe4

def G2_ELEMENTS_1_Y2 : Word := 0x22febda3c0c0632a56475b4214e5615e11e6dd3f96e6cea2854a87d4dacc5e55

end EraPrecompiles.Verifier
